import ProjectDelta.ArenaHistory
import ProjectDelta.ByteMemory
import ProjectDelta.ThreadLayout

/-!
# The arguments that a worker thread reads

`Worker_Init` writes a record for each thread into the transient arena of the main
thread, and the thread reads it whenever it is first scheduled. Each access is one
step. Once the main thread is back in the game's code it may allocate, reset the
arena and write to any block it was ever given.
-/

namespace ProjectDelta

/-! ### What an arena hands out above a level -/

/-- The call neither resets the arena nor leaves it. -/
def ArenaHistory.goesOn (s : ArenaHistory) : ArenaCall → Bool
  | .reset => false
  | call => decide (ExactFits s call)

/-- The arena goes on above `level`, and so do the blocks that it has returned. -/
structure ArenaHistory.Above (site : ArenaSite) (level : ℕ) (s : ArenaHistory) : Prop where
  history : Inv site s
  offset : level ≤ s.arena.backingMemory.toNat + s.arena.offset.toNat
  snapshots : ∀ o ∈ s.snapshots, level ≤ s.arena.backingMemory.toNat + o.toNat
  blocks : ∀ b ∈ s.returned, level ≤ b.start.toNat

theorem ArenaHistory.Above.handOut {site : ArenaSite} {level : ℕ} {s : ArenaHistory}
    (h : s.Above site level) {size : BitVec 64} {alignment : Alignment} (os : OsOutcome)
    {capacity : BitVec 64} {request : Option MemoryRange}
    (hfits : s.arena.exactNeed size alignment ≤ s.arena.maxCapacity.toNat) :
    (s.afterAllocate size alignment os
      ⟨{ s.arena with
          capacity := capacity
          offset := s.arena.offset + s.arena.totalSpace size alignment.value },
        some (s.arena.alignedAddress alignment.value), request⟩).Above site level := by
  obtain ⟨hinv, hoffset, hsnapshots, hblocks⟩ := h
  have hlimit := hinv.fits
  rw [← hinv.maxCapacity] at hlimit
  have hexact := ThreadArena.exact_of_fits hlimit hfits
  have haligned := hexact.aligned
  have hneed : s.arena.exactNeed size alignment =
    s.arena.offset.toNat + s.arena.exactPadding alignment + size.toNat := rfl
  refine ⟨hinv.handOut os hfits, ?_, hsnapshots, ?_⟩
  · change level ≤ s.arena.backingMemory.toNat +
      (s.arena.offset + s.arena.totalSpace size alignment.value).toNat
    rw [hexact.offset]
    omega
  · intro b hb
    rcases List.mem_cons.mp hb with rfl | hold
    · change level ≤ (s.arena.alignedAddress alignment.value).toNat
      omega
    · exact hblocks b hold

/-- The level holds until the arena is reset. -/
theorem ArenaHistory.Above.step {site : ArenaSite} {level : ℕ} {s s' : ArenaHistory}
    (h : s.Above site level) {asserts : Bool} {pageSize : BitVec 64} {call : ArenaCall}
    (hgoes : s.goesOn call = true) (hn : (machine asserts pageSize).next s call = some s') :
    s'.Above site level := by
  obtain ⟨hinv, hoffset, hsnapshots, hblocks⟩ := id h
  cases next_step hn with
  | @allocate size alignment os r hr =>
      have hfits : s.arena.exactNeed size alignment ≤ s.arena.maxCapacity.toNat :=
        of_decide_eq_true hgoes
      rcases ThreadArena.allocate_cases hr with ⟨rfl, -⟩ | ⟨rfl, -⟩ | ⟨rfl, -⟩
      · exact ⟨Inv.step s (.allocate size alignment os) _ hinv hfits hn, hoffset, hsnapshots, hblocks⟩
      · exact h.handOut os hfits
      · exact h.handOut os hfits
  | reset => cases hgoes
  | taskBegin =>
      exact ⟨Inv.step s .taskBegin _ hinv trivial hn, hoffset,
        List.forall_mem_cons.mpr ⟨hoffset, hsnapshots⟩, hblocks⟩
  | @taskEnd snapshot rest hsnap =>
      rw [hsnap] at hsnapshots
      obtain ⟨hsnapshot, hrest⟩ := List.forall_mem_cons.mp hsnapshots
      exact ⟨Inv.step s .taskEnd _ hinv trivial hn, hsnapshot, hrest, hblocks⟩

/-- The first block that an arena returns ends at its new offset. -/
theorem ArenaHistory.top_of_first {s s' : ArenaHistory} {asserts : Bool} {pageSize size : BitVec 64}
    {alignment : Alignment} {os : OsOutcome} {block : ArenaBlock} (hreturned : s.returned = [])
    (hn : (machine asserts pageSize).next s (.allocate size alignment os) = some s')
    (hblock : s'.returned.head? = some block) :
    s'.snapshots = s.snapshots ∧ s'.blocks.top = block.start.toNat + size.toNat := by
  cases next_step hn with
  | allocate hr =>
      rcases ThreadArena.allocate_cases hr with ⟨rfl, -⟩ | ⟨rfl, -⟩ | ⟨rfl, -⟩
      · simp [afterAllocate, hreturned] at hblock
      · obtain rfl := Option.some.inj hblock
        exact ⟨rfl, rfl⟩
      · obtain rfl := Option.some.inj hblock
        exact ⟨rfl, rfl⟩

/-! ### Worker_Init and the threads it starts -/

/-- `sizeof(ThreadCreateInfo)` -/
def sizeofThreadCreateInfo : ℕ := RecordLayout.size 8 [.scalar 8, .scalar 8]   -- fn, args

/-- The default alignment of `Engine::Allocate`. -/
def defaultAlignment : Alignment := ⟨3, by decide⟩

/-- Program points of the loop of `Worker_Init`, and after it. -/
inductive WorkerInitPc
  | storeFn (i : ℕ)
  | storeArgs (i : ℕ)
  | create (i : ℕ)
  | returned

/-- Program points of `DeltaThreadProc`. -/
inductive DeltaThread
  | absent
  | created (lParam : BitVec 64)
  | calling (lParam fn : BitVec 64)
  | running (fn args : BitVec 64)

/-- What is the same in every state; `os` is for the allocation of the records. -/
structure StartSetup where
  pool : MasterPool
  workerProc : BitVec 64
  asserts : Bool
  os : OsOutcome

/-- `recordsHeld` is a ghost: since `Worker_Init` the arena has not been reset and has handed out
nothing that does not fit. -/
structure WorkerStart where
  memory : ByteMemory
  history : ArenaHistory
  infos : BitVec 64
  main : WorkerInitPc
  threads : ℕ → DeltaThread
  recordsHeld : Bool

/-- `write` stores `width` bytes at an offset of the `k`th block, newest first. -/
inductive StartMove
  | main
  | thread (i : ℕ)
  | arena (call : ArenaCall)
  | write (k offset width value : ℕ)

namespace MasterPool

variable (pool : MasterPool)

def mainIx : Fin pool.count := ⟨0, pool.count_pos⟩

/-- The arguments of `InitializeArena` for the transient arena of context `ix`. -/
def transientSite (ix : Fin pool.count) : ArenaSite where
  pageCoord := (pool.generic ix).pageCoordinator
  offset := MemoryMap.virtZoneTaOffset
  baseline := MemoryMap.virtZoneTaBaseline
  maxCapacity := MemoryMap.virtZoneTaSize
  fits := by
    have hfits := pool.pool_fits
    have hix := ix.isLt
    obtain ⟨hstart, hlength⟩ := pool.transientRange_occupies hix
    have hzone := pool.zoneStart_eq ix
    change (pool.transientRange ix).start.toNat + (pool.transientRange ix).length.toNat < 2 ^ 64
    omega
  baseline_le := MemoryMap.virtZoneTaBaseline_le

end MasterPool

namespace StartSetup

variable (setup : StartSetup)

def workerCount : ℕ := setup.pool.count - 1

/-- The context that thread `i` of `Worker_Init` is to get. -/
def context (i : ℕ) : BitVec 64 :=
  getExecutionContext setup.pool.contexts.threadContexts (BitVec.ofNat 64 (i + 1))

/-- The transient arena of the main thread. -/
def site : ArenaSite := setup.pool.transientSite setup.pool.mainIx

def arenas : Machine ArenaHistory ArenaCall :=
  ArenaHistory.machine setup.asserts setup.pool.pageSize.value

/-- `new(TRANSIENT) ThreadCreateInfo[count]` -/
def allocateInfos : ArenaCall :=
  .allocate (BitVec.ofNat 64 (sizeofThreadCreateInfo * setup.workerCount)) defaultAlignment setup.os

end StartSetup

/-- `&cs[i]` -/
def infoAddress (infos : BitVec 64) (i : ℕ) : BitVec 64 :=
  infos + BitVec.ofNat 64 i * BitVec.ofNat 64 sizeofThreadCreateInfo

/-- Where `args` is in a record. -/
def argsAddress (info : BitVec 64) : BitVec 64 := info + 8#64

def DeltaThread.isReading : DeltaThread → Bool
  | .created _ | .calling _ _ => true
  | _ => false

namespace WorkerStart

/-- At the head of the loop of `Worker_Init`; `none` when the assertion fails or the
allocation is `nullptr`. The block of the records is not the game's. -/
def start (setup : StartSetup) (memory : ByteMemory) : Option WorkerStart :=
  (setup.arenas.next (ArenaHistory.start setup.site) setup.allocateInfos).bind fun history =>
    history.returned.head?.map fun block =>
      { memory := memory
        history := { history with returned := [] }
        infos := block.start
        main := .storeFn 0
        threads := fun _ => .absent
        recordsHeld := true }

def setThread (s : WorkerStart) (i : ℕ) (thread : DeltaThread) : WorkerStart :=
  { s with threads := Function.update s.threads i thread }

def mainStep (setup : StartSetup) (s : WorkerStart) : Option WorkerStart :=
  match s.main with
  | .storeFn i =>
      if i < setup.workerCount then
        some { s with
          memory := s.memory.store (infoAddress s.infos i).toNat 8 setup.workerProc.toNat
          main := .storeArgs i }
      else some { s with main := .returned }
  | .storeArgs i =>
      some { s with
        memory := s.memory.store (argsAddress (infoAddress s.infos i)).toNat 8 (setup.context i).toNat
        main := .create i }
  | .create i =>
      some { s.setThread i (.created (infoAddress s.infos i)) with main := .storeFn (i + 1) }
  | .returned => none

def threadStep (s : WorkerStart) (i : ℕ) : Option WorkerStart :=
  match s.threads i with
  | .created lParam =>
      some (s.setThread i (.calling lParam (BitVec.ofNat 64 (s.memory.load lParam.toNat 8))))
  | .calling lParam fn =>
      some (s.setThread i
        (.running fn (BitVec.ofNat 64 (s.memory.load (argsAddress lParam).toNat 8))))
  | .absent | .running _ _ => none

/-- The address of a write, when the game was given the bytes. -/
def target (s : WorkerStart) (k offset width : ℕ) : Option ℕ :=
  s.history.returned[k]?.bind fun block =>
    if offset + width ≤ block.size.toNat then some (block.start + BitVec.ofNat 64 offset).toNat
    else none

def inGame (s : WorkerStart) : Bool := match s.main with
  | .returned => true
  | _ => false

def machine (setup : StartSetup) : Machine WorkerStart StartMove where
  next s
    | .main => s.mainStep setup
    | .thread i => s.threadStep i
    | .arena call =>
        if s.inGame then (setup.arenas.next s.history call).map fun history =>
          { s with
            history := history
            recordsHeld := s.recordsHeld && s.history.goesOn call }
        else none
    | .write k offset width value =>
        if s.inGame then (s.target k offset width).map fun a =>
          { s with memory := s.memory.store a width value }
        else none

/-- When the arena no longer holds the records, no write touches one that its thread has yet to
read. -/
def LeavesRecords (setup : StartSetup) (s : WorkerStart) : StartMove → Prop
  | .write k offset width _ => s.recordsHeld = true ∨ ∀ a ∈ s.target k offset width,
      ∀ i < setup.workerCount, (s.threads i).isReading = true →
        a + width ≤ (infoAddress s.infos i).toNat ∨
          (infoAddress s.infos i).toNat + sizeofThreadCreateInfo ≤ a
  | _ => True

instance (setup : StartSetup) (s : WorkerStart) : ∀ move, Decidable (LeavesRecords setup s move)
  | .write k offset width _ => inferInstanceAs (Decidable (s.recordsHeld = true ∨
      ∀ a ∈ s.target k offset width, ∀ i < setup.workerCount, (s.threads i).isReading = true →
        a + width ≤ (infoAddress s.infos i).toNat ∨
          (infoAddress s.infos i).toNat + sizeofThreadCreateInfo ≤ a))
  | .main | .thread _ | .arena _ => isTrue trivial

/-! ### The invariant -/

variable {setup : StartSetup} {s s' : WorkerStart}

def FnStored (setup : StartSetup) (s : WorkerStart) (i : ℕ) : Prop :=
  s.memory.load (infoAddress s.infos i).toNat 8 = setup.workerProc.toNat

def ArgsStored (setup : StartSetup) (s : WorkerStart) (i : ℕ) : Prop :=
  s.memory.load (argsAddress (infoAddress s.infos i)).toNat 8 = (setup.context i).toNat

/-- The end of the records. -/
def infosEnd (setup : StartSetup) (s : WorkerStart) : ℕ :=
  s.infos.toNat + sizeofThreadCreateInfo * setup.workerCount

def MainOk (setup : StartSetup) (s : WorkerStart) : WorkerInitPc → Prop
  | .storeFn i => ∀ j, i ≤ j → s.threads j = .absent
  | .storeArgs i => i < setup.workerCount ∧ (∀ j, i ≤ j → s.threads j = .absent) ∧ s.FnStored setup i
  | .create i => i < setup.workerCount ∧ (∀ j, i ≤ j → s.threads j = .absent) ∧
      s.FnStored setup i ∧ s.ArgsStored setup i
  | .returned => True

def ThreadOk (setup : StartSetup) (s : WorkerStart) (i : ℕ) : DeltaThread → Prop
  | .absent => True
  | .created lParam => i < setup.workerCount ∧ lParam = infoAddress s.infos i ∧
      s.FnStored setup i ∧ s.ArgsStored setup i
  | .calling lParam fn => i < setup.workerCount ∧ lParam = infoAddress s.infos i ∧
      fn = setup.workerProc ∧ s.ArgsStored setup i
  | .running fn args => i < setup.workerCount ∧ fn = setup.workerProc ∧ args = setup.context i

structure Inv (setup : StartSetup) (s : WorkerStart) : Prop where
  infos_lt : s.infosEnd setup < 2 ^ 64
  held : s.recordsHeld = true → s.history.Above setup.site (s.infosEnd setup)
  main : s.MainOk setup s.main
  thread : ∀ i, s.ThreadOk setup i (s.threads i)

/-! ### Addresses of the records -/

theorem sizeofThreadCreateInfo_eq : sizeofThreadCreateInfo = 16 := by decide

theorem Inv.infoAddress_toNat (h : s.Inv setup) {i : ℕ} (hi : i < setup.workerCount) :
    (infoAddress s.infos i).toNat = s.infos.toNat + 16 * i := by
  have hlt := h.infos_lt
  unfold infosEnd at hlt
  rw [sizeofThreadCreateInfo_eq] at hlt
  rw [infoAddress, sizeofThreadCreateInfo_eq, BitVec.toNat_add, BitVec.toNat_mul, BitVec.toNat_ofNat,
    BitVec.toNat_ofNat]
  omega

theorem Inv.argsAddress_toNat (h : s.Inv setup) {i : ℕ} (hi : i < setup.workerCount) :
    (argsAddress (infoAddress s.infos i)).toNat = s.infos.toNat + 16 * i + 8 := by
  have hlt := h.infos_lt
  unfold infosEnd at hlt
  rw [sizeofThreadCreateInfo_eq] at hlt
  rw [argsAddress, BitVec.toNat_add, h.infoAddress_toNat hi, BitVec.toNat_ofNat]
  omega

/-- A store outside record `i`. -/
theorem Inv.record_store (h : s.Inv setup) {i : ℕ} (hi : i < setup.workerCount) {a width : ℕ}
    (value : ℕ) (hout : a + width ≤ s.infos.toNat + 16 * i ∨ s.infos.toNat + 16 * i + 16 ≤ a) :
    (FnStored setup { s with memory := s.memory.store a width value } i ↔ s.FnStored setup i) ∧
      (ArgsStored setup { s with memory := s.memory.store a width value } i ↔
        s.ArgsStored setup i) := by
  have hfn := h.infoAddress_toNat hi
  have hargs := h.argsAddress_toNat hi
  constructor
  · unfold FnStored
    rw [ByteMemory.load_store_disjoint s.memory value (by rw [hfn]; omega)]
  · unfold ArgsStored
    rw [ByteMemory.load_store_disjoint s.memory value (by rw [hargs]; omega)]

/-- A thread that has yet to read its record is not disturbed by a store elsewhere. -/
theorem Inv.thread_store (h : s.Inv setup) {i : ℕ} {a width : ℕ} (value : ℕ)
    (hout : i < setup.workerCount → (s.threads i).isReading = true →
      a + width ≤ s.infos.toNat + 16 * i ∨ s.infos.toNat + 16 * i + 16 ≤ a) :
    ThreadOk setup { s with memory := s.memory.store a width value } i (s.threads i) := by
  have hok := h.thread i
  cases hthread : s.threads i with
  | absent => trivial
  | created lParam =>
      rw [hthread] at hok hout
      obtain ⟨hi, hlParam, hfn, hargs⟩ := hok
      have hstore := h.record_store hi value (hout hi rfl)
      exact ⟨hi, hlParam, hstore.1.mpr hfn, hstore.2.mpr hargs⟩
  | calling lParam fn =>
      rw [hthread] at hok hout
      obtain ⟨hi, hlParam, hfn, hargs⟩ := hok
      have hstore := h.record_store hi value (hout hi rfl)
      exact ⟨hi, hlParam, hfn, hstore.2.mpr hargs⟩
  | running fn args =>
      rw [hthread] at hok
      exact hok

/-! ### Steps -/

theorem forall_setThread {P : ℕ → DeltaThread → Prop} {i : ℕ} {thread : DeltaThread}
    (hi : P i thread) (h : ∀ j, j ≠ i → P j (s.threads j)) (j : ℕ) :
    P j ((s.setThread i thread).threads j) := by
  by_cases hj : j = i
  · subst hj
    simp only [setThread, Function.update_self]
    exact hi
  · simp only [setThread, Function.update_of_ne hj]
    exact h j hj

/-- Threads that do not exist yet have nothing to read. -/
theorem Inv.main_store (h : s.Inv setup) {i : ℕ} (habsent : ∀ j, i ≤ j → s.threads j = .absent)
    {a : ℕ} (value : ℕ) (hlow : s.infos.toNat + 16 * i ≤ a) (j : ℕ) :
    ThreadOk setup { s with memory := s.memory.store a 8 value } j (s.threads j) := by
  apply h.thread_store
  intro hj hreading
  have hlt : j < i := by
    by_contra hle
    rw [habsent j (by omega)] at hreading
    cases hreading
  omega

theorem Inv.mainStep (h : s.Inv setup) (hstep : s.mainStep setup = some s') : s'.Inv setup := by
  have hok := h.main
  unfold WorkerStart.mainStep at hstep
  cases hmain : s.main with
  | storeFn i =>
      rw [hmain] at hok
      simp only [hmain] at hstep
      split_ifs at hstep with hi <;> obtain rfl := Option.some.inj hstep
      · have hfn := h.infoAddress_toNat hi
        refine ⟨h.infos_lt, h.held, ⟨hi, hok, ?_⟩, h.main_store hok _ (by omega)⟩
        exact (ByteMemory.load_store_self ..).trans (Nat.mod_eq_of_lt setup.workerProc.isLt)
      · exact ⟨h.infos_lt, h.held, trivial, h.thread⟩
  | storeArgs i =>
      rw [hmain] at hok
      simp only [hmain] at hstep
      obtain rfl := Option.some.inj hstep
      obtain ⟨hi, habsent, hfn⟩ := hok
      have hinfo := h.infoAddress_toNat hi
      have hargs := h.argsAddress_toNat hi
      refine ⟨h.infos_lt, h.held, ⟨hi, habsent, ?_, ?_⟩, h.main_store habsent _ (by omega)⟩
      · have hbefore : (infoAddress s.infos i).toNat + 8 ≤
          (argsAddress (infoAddress s.infos i)).toNat := by omega
        exact (ByteMemory.load_store_disjoint s.memory _ (Or.inl hbefore)).trans hfn
      · exact (ByteMemory.load_store_self ..).trans (Nat.mod_eq_of_lt (setup.context i).isLt)
  | create i =>
      rw [hmain] at hok
      simp only [hmain] at hstep
      obtain rfl := Option.some.inj hstep
      obtain ⟨hi, habsent, hfn, hargs⟩ := hok
      refine ⟨h.infos_lt, h.held, ?_, forall_setThread ⟨hi, rfl, hfn, hargs⟩ fun j _ => h.thread j⟩
      intro j hj
      exact (Function.update_of_ne (show j ≠ i by omega) ..).trans (habsent j (by omega))
  | returned =>
      simp only [hmain] at hstep
      cases hstep

/-- A thread that exists is not one that the main thread has yet to start. -/
theorem Inv.main_setThread (h : s.Inv setup) {i : ℕ} (hi : s.threads i ≠ .absent)
    (thread : DeltaThread) : MainOk setup (s.setThread i thread) s.main := by
  have habsent : ∀ k, (∀ j, k ≤ j → s.threads j = .absent) →
      ∀ j, k ≤ j → (s.setThread i thread).threads j = .absent := by
    intro k hk j hj
    refine (Function.update_of_ne ?_ ..).trans (hk j hj)
    rintro rfl
    exact hi (hk j hj)
  have hok := h.main
  cases hmain : s.main with
  | storeFn k =>
      rw [hmain] at hok
      exact habsent k hok
  | storeArgs k | create k =>
      rw [hmain] at hok
      exact ⟨hok.1, habsent k hok.2.1, hok.2.2⟩
  | returned => trivial

/-- A thread reads one half of its record. -/
theorem Inv.threadStep (h : s.Inv setup) {i : ℕ} (hstep : s.threadStep i = some s') :
    s'.Inv setup := by
  have hok := h.thread i
  unfold WorkerStart.threadStep at hstep
  cases hthread : s.threads i with
  | absent | running =>
      simp only [hthread] at hstep
      cases hstep
  | created lParam =>
      simp only [hthread] at hstep
      obtain rfl := Option.some.inj hstep
      rw [hthread] at hok
      obtain ⟨hi, rfl, hfn, hargs⟩ := hok
      refine ⟨h.infos_lt, h.held, h.main_setThread (by rw [hthread]; simp) _,
        forall_setThread ⟨hi, rfl, ?_, hargs⟩ fun j _ => h.thread j⟩
      rw [hfn, BitVec.ofNat_toNat, BitVec.setWidth_eq]
  | calling lParam fn =>
      simp only [hthread] at hstep
      obtain rfl := Option.some.inj hstep
      rw [hthread] at hok
      obtain ⟨hi, rfl, hfn, hargs⟩ := hok
      refine ⟨h.infos_lt, h.held, h.main_setThread (by rw [hthread]; simp) _,
        forall_setThread ⟨hi, hfn, ?_⟩ fun j _ => h.thread j⟩
      rw [hargs, BitVec.ofNat_toNat, BitVec.setWidth_eq]

/-- While the arena holds the records, the game has nothing below their end. -/
theorem infosEnd_le_target (h : s.history.Above setup.site (s.infosEnd setup)) {k offset width a : ℕ}
    (ha : s.target k offset width = some a) : s.infosEnd setup ≤ a := by
  obtain ⟨block, hblock, hfits⟩ := Option.bind_eq_some_iff.mp ha
  have hmem := List.mem_of_getElem? hblock
  obtain ⟨-, -, hend⟩ := h.history.returned block hmem
  have hlimit := h.history.fits
  rw [← h.history.maxCapacity] at hlimit
  have hstart := h.blocks block hmem
  have hsize := block.size.isLt
  split_ifs at hfits with hle
  obtain rfl := Option.some.inj hfits
  rw [BitVec.toNat_add, BitVec.toNat_ofNat, Nat.mod_eq_of_lt (show offset < 2 ^ 64 by omega),
    Nat.mod_eq_of_lt (by omega)]
  omega

/-- A write to a block of the game, with the bytes that the guard keeps it from. -/
theorem Inv.write (h : s.Inv setup) (hgame : s.inGame = true) {k offset width value a : ℕ}
    (hg : LeavesRecords setup s (.write k offset width value)) (ha : s.target k offset width = some a) :
    Inv setup { s with memory := s.memory.store a width value } := by
  have hout : ∀ i < setup.workerCount, (s.threads i).isReading = true →
      a + width ≤ s.infos.toNat + 16 * i ∨ s.infos.toNat + 16 * i + 16 ≤ a := by
    intro i hi hreading
    rcases hg with hheld | hleaves
    · have habove := infosEnd_le_target (h.held hheld) ha
      have hend : s.infosEnd setup = s.infos.toNat + 16 * setup.workerCount := rfl
      omega
    · have hrecord := hleaves a ha i hi hreading
      rwa [h.infoAddress_toNat hi, sizeofThreadCreateInfo_eq] at hrecord
  refine ⟨h.infos_lt, h.held, ?_, fun i => h.thread_store value (hout i)⟩
  unfold inGame at hgame
  cases hmain : s.main with
  | returned => trivial
  | _ => simp [hmain] at hgame

theorem Inv.arena (h : s.Inv setup) {call : ArenaCall}
    {history : ArenaHistory} (hn : setup.arenas.next s.history call = some history) :
    Inv setup { s with
      history := history
      recordsHeld := s.recordsHeld && s.history.goesOn call } := by
  refine ⟨h.infos_lt, fun hheld => ?_, h.main, h.thread⟩
  obtain ⟨hold, hgoes⟩ := Bool.and_eq_true_iff.mp hheld
  exact (h.held hold).step hgoes hn

theorem Inv.step (s : WorkerStart) (move : StartMove) (s' : WorkerStart) (h : s.Inv setup)
    (hg : LeavesRecords setup s move) (hn : (machine setup).next s move = some s') : s'.Inv setup := by
  cases move with
  | main => exact h.mainStep hn
  | thread i => exact h.threadStep hn
  | arena call =>
      simp only [machine] at hn
      split_ifs at hn with hgame
      obtain ⟨history, hhistory, rfl⟩ := Option.map_eq_some_iff.mp hn
      exact h.arena hhistory
  | write k offset width value =>
      simp only [machine] at hn
      split_ifs at hn with hgame
      obtain ⟨a, ha, rfl⟩ := Option.map_eq_some_iff.mp hn
      exact h.write hgame hg ha

/-- The records end below the offset that their allocation leaves. -/
theorem start_inv {memory : ByteMemory} {s₀ : WorkerStart}
    (hfits : ArenaHistory.ExactFits (ArenaHistory.start setup.site) setup.allocateInfos)
    (h₀ : start setup memory = some s₀) : s₀.Inv setup := by
  obtain ⟨history, hnext, hblock⟩ := Option.bind_eq_some_iff.mp h₀
  obtain ⟨block, hhead, rfl⟩ := Option.map_eq_some_iff.mp hblock
  have hinv := ArenaHistory.Inv.step _ setup.allocateInfos _ (ArenaHistory.start_inv setup.site)
    hfits hnext
  obtain ⟨hsnapshots, htop⟩ := ArenaHistory.top_of_first rfl hnext hhead
  have hsize : (BitVec.ofNat 64 (sizeofThreadCreateInfo * setup.workerCount)).toNat =
      sizeofThreadCreateInfo * setup.workerCount := by
    have hcount : setup.workerCount = setup.pool.threadCount.toNat - 1 := rfl
    have hwidth := setup.pool.threadCount.isLt
    rw [sizeofThreadCreateInfo_eq, BitVec.toNat_ofNat]
    omega
  rw [hsize, hinv.top] at htop
  have hlimit := hinv.fits
  have hoffset := hinv.offset_le
  refine ⟨?_, fun _ => ⟨?_, htop.ge, ?_, fun _ hb => absurd hb List.not_mem_nil⟩, fun _ _ => rfl,
    fun _ => trivial⟩
  · change block.start.toNat + sizeofThreadCreateInfo * setup.workerCount < 2 ^ 64
    omega
  · exact ⟨hinv.backing, hinv.maxCapacity, hinv.offset_le, hinv.snapshots_le, hinv.top, hinv.saved,
      hinv.stacked, fun _ hb => absurd hb List.not_mem_nil⟩
  · intro o ho
    rw [hsnapshots] at ho
    exact absurd ho List.not_mem_nil

/-- Every thread that has read its record calls `WorkerProc` with the context of its index, in every
run in which the game leaves alone the records that are still to be read. -/
theorem own_arguments (setup : StartSetup)
    (hfits : ArenaHistory.ExactFits (ArenaHistory.start setup.site) setup.allocateInfos)
    (memory : ByteMemory) (s₀ s : WorkerStart) (h₀ : start setup memory = some s₀)
    (hs : (machine setup).ReachIf (LeavesRecords setup) s₀ s) (i : ℕ) (fn : BitVec 64) :
    (∀ lParam, s.threads i = .calling lParam fn → fn = setup.workerProc) ∧
      ∀ args, s.threads i = .running fn args →
        i < setup.workerCount ∧ fn = setup.workerProc ∧ args = setup.context i := by
  have hthread := (hs.invariant Inv.step (start_inv hfits h₀)).thread i
  constructor
  · intro lParam hcalling
    rw [hcalling] at hthread
    exact hthread.2.2.1
  · intro args hrunning
    rw [hrunning] at hthread
    exact hthread

/-! ### One worker -/

/-- The main thread and one worker. -/
def twoThreadPool : MasterPool where
  threadCount := 2#32
  pageSize := .smallPage
  base := 65536#64
  one_le := by decide
  aligned := by decide
  size_lt := by decide
  fits := by decide

/-- With a `WorkerProc` at address 1. -/
def oneWorkerSetup : StartSetup := ⟨twoThreadPool, 1#64, true, ⟨true, true⟩⟩

def clearedMemory : ByteMemory := fun _ => 0#8

def oneWorkerStart : WorkerStart := (start oneWorkerSetup clearedMemory).get rfl

theorem start_oneWorker : start oneWorkerSetup clearedMemory = some oneWorkerStart := rfl

/-- A frame passes, and the game clears a block of 16 bytes before the worker has run. -/
def lateThread : List StartMove :=
  List.replicate 4 .main ++ [.arena .reset, .arena (.allocate 16#64 defaultAlignment ⟨true, true⟩),
    .write 0 0 16 0, .thread 0, .thread 0]

def lateEnd : WorkerStart := ((machine oneWorkerSetup).exec oneWorkerStart lateThread).get rfl

theorem lateEnd_reach : (machine oneWorkerSetup).Reach oneWorkerStart lateEnd :=
  Machine.reach_of_exec lateThread rfl

/-- The worker calls address 0. -/
theorem arguments_overwritten : ¬ ∀ (setup : StartSetup) (memory : ByteMemory) (s₀ s : WorkerStart),
    start setup memory = some s₀ → (machine setup).Reach s₀ s →
      ∀ i fn args, s.threads i = .running fn args → fn = setup.workerProc ∧ args = setup.context i := by
  intro h
  have hread : lateEnd.threads 0 = .running 0#64 0#64 := rfl
  have hown := h oneWorkerSetup clearedMemory oneWorkerStart lateEnd start_oneWorker lateEnd_reach 0
    0#64 0#64 hread
  exact absurd hown.1 (by decide)

/-- The game writes to its block at once, and the worker has run when the frame ends. -/
def promptThread : List StartMove :=
  List.replicate 4 .main ++ [.arena (.allocate 16#64 defaultAlignment ⟨true, true⟩),
    .write 0 0 16 0, .thread 0, .thread 0, .arena .reset,
    .arena (.allocate 16#64 defaultAlignment ⟨true, true⟩), .write 0 0 16 0]

def promptEnd : WorkerStart := ((machine oneWorkerSetup).exec oneWorkerStart promptThread).get rfl

theorem promptEnd_reach :
    (machine oneWorkerSetup).ReachIf (LeavesRecords oneWorkerSetup) oneWorkerStart promptEnd :=
  Machine.reachIf_of_exec promptThread rfl (by decide)

theorem promptEnd_own_arguments : ∃ fn args, promptEnd.threads 0 = .running fn args ∧
    fn = oneWorkerSetup.workerProc ∧ args = oneWorkerSetup.context 0 := by
  refine ⟨_, _, rfl, ?_⟩
  exact ((own_arguments oneWorkerSetup (by decide) clearedMemory oneWorkerStart promptEnd
    start_oneWorker promptEnd_reach 0 _).2 _ rfl).2

end WorkerStart
end ProjectDelta
