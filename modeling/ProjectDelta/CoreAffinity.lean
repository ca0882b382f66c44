import ProjectDelta.Platform

/-!
# The cores that the threads are pinned to

`Thread_AssignPhysicalCore` takes the first logical processor of core `i` to be
number `2 * i`. On a machine where some core has another number of processors the
mask names a processor of another core or one that does not exist.
-/

namespace ProjectDelta

/-- The core index that `Engine::Initialize` (for the main thread) and `Worker_Init` pass on. -/
def coreIndexOf : ℕ → BitVec 32
  | 0 => 0#32
  | i + 1 => BitVec.ofNat 32 i + 1#32

/-- The mask of `Thread_AssignPhysicalCore`; `none` is a shift by 64 or more. -/
def affinityMask (coreIndex : BitVec 32) : Option (BitVec 64) :=
  let logicalCore := coreIndex * 2#32
  if logicalCore.toNat < 64 then some (1#64 <<< logicalCore.toNat) else none

namespace Topology

variable (t : Topology) (dwPageSize : BitVec 32)

/-- The physical cores that `platform::Initialize` counts. -/
def coreCount : ℕ := (platformInitialize dwPageSize (some t.records)).cpuPhysicalCoreCount.toNat

/-- The mask of thread `i` is a single bit, of a logical processor of physical core `c`. -/
def RunsOn (i c : ℕ) : Prop :=
  ∃ k, affinityMask (coreIndexOf i) = some (BitVec.twoPow 64 k) ∧ t.OnCore c k

/-- Every thread is on its own core, and no two threads share one. -/
structure OwnCores : Prop where
  own : ∀ i < t.coreCount dwPageSize, t.RunsOn i i
  apart : ∀ i < t.coreCount dwPageSize, ∀ j < t.coreCount dwPageSize,
    ∀ c, t.RunsOn i c → t.RunsOn j c → i = j

theorem coreIndexOf_eq (i : ℕ) : coreIndexOf i = BitVec.ofNat 32 i := by
  cases i with
  | zero => rfl
  | succ i => rw [coreIndexOf, BitVec.ofNat_add]

theorem affinityMask_eq {i : ℕ} (h : 2 * i < 64) :
    affinityMask (coreIndexOf i) = some (BitVec.twoPow 64 (2 * i)) := by
  have hshift : (coreIndexOf i * 2#32).toNat = 2 * i := by
    rw [coreIndexOf_eq, BitVec.toNat_mul, BitVec.toNat_ofNat, BitVec.toNat_ofNat]
    omega
  rw [affinityMask, hshift, if_pos h, BitVec.twoPow_eq]

theorem affinityMask_eq_none {i : ℕ} (hi : i ≤ 64) (h : 64 ≤ 2 * i) :
    affinityMask (coreIndexOf i) = none := by
  have hshift : (coreIndexOf i * 2#32).toNat = 2 * i := by
    rw [coreIndexOf_eq, BitVec.toNat_mul, BitVec.toNat_ofNat, BitVec.toNat_ofNat]
    omega
  rw [affinityMask, hshift, if_neg (Nat.not_lt.mpr h)]

/-- A logical processor has a number below 64. -/
theorem lt_of_onCore {c k : ℕ} (h : t.OnCore c k) : k < 64 := by
  obtain ⟨record, -, mask, -, hbit⟩ := h
  exact BitVec.lt_of_getLsbD hbit

variable {t}

theorem runsOn_iff {i c : ℕ} (hi : i ≤ 64) : t.RunsOn i c ↔ t.OnCore c (2 * i) := by
  constructor
  · rintro ⟨k, hmask, hcore⟩
    have hk := t.lt_of_onCore hcore
    rcases Nat.lt_or_ge (2 * i) 64 with hlt | hge
    · rw [affinityMask_eq hlt] at hmask
      have hpow := congrArg BitVec.toNat (Option.some.inj hmask)
      rw [BitVec.toNat_twoPow_of_lt hlt, BitVec.toNat_twoPow_of_lt hk] at hpow
      rwa [Nat.pow_right_injective (Nat.le_refl 2) hpow]
    · rw [affinityMask_eq_none hi hge] at hmask
      cases hmask
  · intro hcore
    exact ⟨2 * i, affinityMask_eq (t.lt_of_onCore hcore), hcore⟩

variable (t)

theorem ownCores_iff_mem : t.OwnCores dwPageSize ↔
    ∀ i < t.cores.length, Blocks.Mem t.cores i (2 * i) := by
  have hcount : t.coreCount dwPageSize = t.cores.length := t.platformInitialize_cores dwPageSize
  have hlength := t.length_le
  have hruns : ∀ i < t.cores.length, ∀ c, t.RunsOn i c ↔ Blocks.Mem t.cores c (2 * i) := by
    intro i hi c
    rw [runsOn_iff (by omega), onCore_iff]
  constructor
  · intro h i hi
    exact (hruns i hi i).mp (h.own i (hcount ▸ hi))
  · intro h
    refine ⟨fun i hi => ?_, fun i hi j hj c hic hjc => ?_⟩
    · rw [hcount] at hi
      exact (hruns i hi i).mpr (h i hi)
    · rw [hcount] at hi hj
      have hci := Blocks.Mem.unique ((hruns i hi c).mp hic) (h i hi)
      have hcj := Blocks.Mem.unique ((hruns j hj c).mp hjc) (h j hj)
      exact hci.symm.trans hcj

/-- The condition on the topology: in front of every core but the first there are twice as many
logical processors as cores or one less, and in all at least twice as many less one. -/
def InPairs : Prop :=
  (∀ i < t.cores.length, 0 < i →
      Blocks.first t.cores i = 2 * i ∨ Blocks.first t.cores i + 1 = 2 * i) ∧
    2 * t.cores.length ≤ Blocks.first t.cores t.cores.length + 1

theorem mem_iff_inPairs : (∀ i < t.cores.length, Blocks.Mem t.cores i (2 * i)) ↔ t.InPairs := by
  constructor
  · intro h
    refine ⟨fun i hi hpos => ?_, ?_⟩
    · obtain ⟨hlow, -⟩ := h i hi
      obtain ⟨-, hhigh⟩ := h (i - 1) (by omega)
      rw [Nat.sub_add_cancel hpos] at hhigh
      omega
    · rcases Nat.eq_zero_or_pos t.cores.length with hzero | hpos
      · omega
      · obtain ⟨-, hhigh⟩ := h (t.cores.length - 1) (by omega)
        rw [Nat.sub_add_cancel hpos] at hhigh
        omega
  · rintro ⟨hbefore, htotal⟩ i hi
    constructor
    · rcases Nat.eq_zero_or_pos i with rfl | hpos
      · exact Nat.le_of_eq (Blocks.first_zero _)
      · have hfirst := hbefore i hi hpos
        omega
    · rcases Nat.lt_or_eq_of_le (Nat.succ_le_of_lt hi) with hlt | heq
      · have hfirst := hbefore (i + 1) hlt (Nat.succ_pos i)
        omega
      · rw [← heq] at htotal
        change 2 * i < Blocks.first t.cores i.succ
        omega

/-- The mask of a thread is right exactly when processor `2 * i` is one of core `i`, and all of
them are, each with a core of its own, exactly on the topologies of `InPairs`. -/
theorem own_core_iff :
    (∀ i < t.coreCount dwPageSize, t.RunsOn i i ↔
        Blocks.first t.cores i ≤ 2 * i ∧ 2 * i < Blocks.first t.cores (i + 1)) ∧
      (t.OwnCores dwPageSize ↔ t.InPairs) := by
  have hcount : t.coreCount dwPageSize = t.cores.length := t.platformInitialize_cores dwPageSize
  have hlength := t.length_le
  refine ⟨fun i hi => ?_, (t.ownCores_iff_mem dwPageSize).trans t.mem_iff_inPairs⟩
  rw [runsOn_iff (by omega), onCore_iff]
  rfl

instance : Decidable t.InPairs := inferInstanceAs (Decidable (_ ∧ _))

/-- Two cores without SMT. -/
def twoSingleCores : Topology where
  cores := [1, 1]
  occupied := by decide
  total_le := by decide

theorem second_core_missed : ¬ ∀ (t : Topology) (dwPageSize : BitVec 32), t.OwnCores dwPageSize := by
  intro h
  have hmem := (twoSingleCores.ownCores_iff_mem 4096#32).mp (h twoSingleCores 4096#32)
  exact absurd (hmem 1 (by decide)) (by decide)

end Topology
end ProjectDelta
