import Mathlib.Algebra.Group.Nat.Defs
import ProjectDelta.Blocks

/-!
# What the platform layer records of the processor

`platform::Initialize` counts the physical cores and the logical processors in the
records of `GetLogicalProcessorInformationEx`, and leaves both counts at zero when
the query fails. A topology of one processor group gives such records.
-/

namespace ProjectDelta

inductive LogicalProcessorRelationship
  | relationProcessorCore
  | other

/-- `SYSTEM_LOGICAL_PROCESSOR_INFORMATION_EX`, with the masks of its groups. -/
structure ProcessorInformation where
  relationship : LogicalProcessorRelationship
  groupMasks : List (BitVec 64)

structure OSInfo where
  cpuPhysicalCoreCount : BitVec 32
  cpuLogicalProcessorCount : BitVec 32
  osPageSize : BitVec 32
  cpuHasSMT : Bool

/-- One round of the loop, with the physical cores and the logical processors so far. -/
def countInformation (counts : BitVec 32 × BitVec 32) (current : ProcessorInformation) :
    BitVec 32 × BitVec 32 :=
  match current.relationship with
  | .relationProcessorCore =>
      (counts.1 + 1#32,
        current.groupMasks.foldl (fun n mask => n + mask.cpop.setWidth 32) counts.2)
  | .other => counts

/-- `platform::Initialize`; `query` is what the two calls of `GetLogicalProcessorInformationEx`
leave in the buffer, `none` when the buffer or the second call fails. -/
def platformInitialize (dwPageSize : BitVec 32) (query : Option (List ProcessorInformation)) :
    OSInfo :=
  let counts := (query.getD []).foldl countInformation (0#32, 0#32)
  { cpuPhysicalCoreCount := counts.1
    cpuLogicalProcessorCount := counts.2
    osPageSize := dwPageSize
    cpuHasSMT := decide (counts.1 < counts.2) }

theorem countInformation_cores (records : List ProcessorInformation) (counts : BitVec 32 × BitVec 32)
    (h : ∀ r ∈ records, r.relationship = .relationProcessorCore) :
    (records.foldl countInformation counts).1 = counts.1 + BitVec.ofNat 32 records.length := by
  induction records generalizing counts with
  | nil => simp
  | cons r records ih =>
      obtain ⟨hr, hrecords⟩ := List.forall_mem_cons.mp h
      have hone : (countInformation counts r).1 = counts.1 + 1#32 := by rw [countInformation, hr]
      rw [List.foldl_cons, ih _ hrecords, hone, List.length_cons, BitVec.ofNat_add, BitVec.add_assoc,
        BitVec.add_comm 1#32]

/-! ### Topologies -/

/-- The numbers of logical processors of the cores of one group. The processors are numbered
in the order of the cores. -/
structure Topology where
  cores : List ℕ
  occupied : ∀ size ∈ cores, 1 ≤ size
  total_le : Blocks.first cores cores.length ≤ 64

namespace Topology

variable (t : Topology)

/-- The record of core `i`. -/
def record (i size : ℕ) : ProcessorInformation where
  relationship := .relationProcessorCore
  groupMasks := [BitVec.ofNat 64 ((2 ^ size - 1) <<< Blocks.first t.cores i)]

def records : List ProcessorInformation := t.cores.mapIdx t.record

/-- Logical processor `k` belongs to physical core `i`. -/
def OnCore (i k : ℕ) : Prop :=
  ∃ record ∈ t.records[i]?, ∃ mask ∈ record.groupMasks, mask.getLsbD k = true

theorem length_le : t.cores.length ≤ 64 :=
  Nat.le_trans (Blocks.le_first t.occupied (Nat.le_refl _)) t.total_le

theorem platformInitialize_cores (dwPageSize : BitVec 32) :
    (platformInitialize dwPageSize (some t.records)).cpuPhysicalCoreCount.toNat = t.cores.length := by
  have hle := t.length_le
  have hcores : ∀ r ∈ t.records, r.relationship = .relationProcessorCore := by
    intro r hr
    obtain ⟨i, hi, rfl⟩ := List.mem_mapIdx.mp hr
    rfl
  have hlength : t.records.length = t.cores.length := List.length_mapIdx
  change (t.records.foldl countInformation (0#32, 0#32)).1.toNat = _
  rw [countInformation_cores _ _ hcores, hlength, BitVec.zero_add, BitVec.toNat_ofNat]
  omega

/-- The masks of the records have the bits of the block of their core. -/
theorem onCore_iff {i k : ℕ} : t.OnCore i k ↔ Blocks.Mem t.cores i k := by
  unfold OnCore records
  rw [List.getElem?_mapIdx]
  cases hsize : t.cores[i]? with
  | none =>
      have hsame := Blocks.first_succ_of_none hsize
      unfold Blocks.Mem
      rw [hsame]
      constructor
      · rintro ⟨record, hrecord, -⟩
        cases hrecord
      · omega
  | some size =>
      have hnext := Blocks.first_succ hsize
      have hi : i < t.cores.length := (List.getElem?_eq_some_iff.mp hsize).1
      have htotal : Blocks.first t.cores (i + 1) ≤ 64 :=
        Nat.le_trans (Blocks.first_mono t.cores hi) t.total_le
      simp only [Option.map_some, record, Option.mem_def, Option.some.injEq, exists_eq_left',
        List.mem_singleton, exists_eq_left, BitVec.getLsbD_ofNat, Nat.testBit_shiftLeft, ge_iff_le,
        Nat.testBit_two_pow_sub_one, Bool.and_eq_true, decide_eq_true_eq, Blocks.Mem]
      omega

end Topology
end ProjectDelta
