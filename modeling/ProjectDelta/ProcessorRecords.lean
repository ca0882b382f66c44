import ProjectDelta.ByteMemory
import ProjectDelta.Platform

/-!
# The buffer of processor records

`platform::Initialize` walks over a buffer of records of different sizes. Each record
names its size, and the pointer moves on by it until it has reached the end. The fields
are where `SYSTEM_LOGICAL_PROCESSOR_INFORMATION_EX`, `PROCESSOR_RELATIONSHIP` and
`GROUP_AFFINITY` have them on a 64-bit system.

On a buffer that holds records the walk takes one round for each of them and counts what
`countInformation` counts in their list. For the records of a topology these are its
cores and its logical processors.
-/

namespace ProjectDelta
namespace ProcessorBuffer

variable {m : ByteMemory} {ptr stop : ℕ} {r : ProcessorInformation} {counts : BitVec 32 × BitVec 32}

/-- `RelationProcessorCore` is 0. -/
def relationship (m : ByteMemory) (ptr : ℕ) : LogicalProcessorRelationship :=
  if m.load ptr 4 = 0 then .relationProcessorCore else .other

def size (m : ByteMemory) (ptr : ℕ) : ℕ := m.load (ptr + 4) 4

def groupCount (m : ByteMemory) (ptr : ℕ) : ℕ := m.load (ptr + 30) 2

/-- `Processor.GroupMask[g].Mask` -/
def groupMask (m : ByteMemory) (ptr g : ℕ) : BitVec 64 :=
  BitVec.ofNat 64 (m.load (ptr + 32 + 16 * g) 8)

/-- The body of the loop. -/
def countRecord (m : ByteMemory) (ptr : ℕ) (counts : BitVec 32 × BitVec 32) :
    BitVec 32 × BitVec 32 :=
  match relationship m ptr with
  | .relationProcessorCore =>
      (counts.1 + 1#32,
        (List.range (groupCount m ptr)).foldl
          (fun n g => n + (groupMask m ptr g).cpop.setWidth 32) counts.2)
  | .other => counts

/-- The loop; `none` when it is not through after so many rounds. -/
def walk (m : ByteMemory) (stop : ℕ) : ℕ → ℕ → BitVec 32 × BitVec 32 → Option (BitVec 32 × BitVec 32)
  | 0, ptr, counts => if ptr < stop then none else some counts
  | rounds + 1, ptr, counts =>
      if ptr < stop then walk m stop rounds (ptr + size m ptr) (countRecord m ptr counts)
      else some counts

/-- `platform::Initialize`; `buffer` is where the buffer starts and ends, `none` when `malloc` or the
second call of `GetLogicalProcessorInformationEx` fails. -/
def platformInitializeFrom (m : ByteMemory) (dwPageSize : BitVec 32) (buffer : Option (ℕ × ℕ))
    (rounds : ℕ) : Option OSInfo :=
  let counted := match buffer with
    | none => some (0#32, 0#32)
    | some (ptr, stop) => walk m stop rounds ptr (0#32, 0#32)
  counted.map fun counts =>
    { cpuPhysicalCoreCount := counts.1
      cpuLogicalProcessorCount := counts.2
      osPageSize := dwPageSize
      cpuHasSMT := decide (counts.1 < counts.2) }

/-! ### Buffers that hold records -/

/-- A record as it is read; only those of cores have their groups looked at. -/
structure HoldsRecord (m : ByteMemory) (ptr : ℕ) (r : ProcessorInformation) : Prop where
  relationship : relationship m ptr = r.relationship
  groupMasks : r.relationship = .relationProcessorCore →
    (List.range (groupCount m ptr)).map (groupMask m ptr) = r.groupMasks

/-- The records fill the bytes from `ptr` to `stop`, each as far as its size says. -/
def Holds (m : ByteMemory) (stop : ℕ) : ℕ → List ProcessorInformation → Prop
  | ptr, [] => ptr = stop
  | ptr, r :: records =>
      HoldsRecord m ptr r ∧ 1 ≤ size m ptr ∧ Holds m stop (ptr + size m ptr) records

theorem countRecord_eq (h : HoldsRecord m ptr r) (counts : BitVec 32 × BitVec 32) :
    countRecord m ptr counts = countInformation counts r := by
  unfold countRecord countInformation
  rw [h.relationship]
  cases hr : r.relationship with
  | relationProcessorCore => rw [← h.groupMasks hr, List.foldl_map]
  | other => rfl

theorem Holds.le_stop {records : List ProcessorInformation} (h : Holds m stop ptr records) :
    ptr ≤ stop := by
  induction records generalizing ptr with
  | nil => exact Nat.le_of_eq h
  | cons r records ih => exact Nat.le_trans (Nat.le_add_right _ _) (ih h.2.2)

/-- One round for each record, and then the end. -/
theorem walk_eq {records : List ProcessorInformation} (h : Holds m stop ptr records) (rounds : ℕ)
    (counts : BitVec 32 × BitVec 32) :
    walk m stop rounds ptr counts =
      if rounds < records.length then none else some (records.foldl countInformation counts) := by
  induction records generalizing ptr rounds counts with
  | nil =>
      have hend : ¬ ptr < stop := Nat.not_lt.mpr (Nat.le_of_eq h.symm)
      cases rounds <;> simp only [walk, if_neg hend] <;> rfl
  | cons r records ih =>
      obtain ⟨hrecord, hsize, hrest⟩ := h
      have hlt : ptr < stop := Nat.lt_of_lt_of_le (Nat.lt_add_of_pos_right hsize) hrest.le_stop
      cases rounds with
      | zero => simp only [walk, if_pos hlt, List.length_cons, Nat.zero_lt_succ, if_true]
      | succ rounds =>
          rw [walk, if_pos hlt, ih hrest, countRecord_eq hrecord, List.length_cons, List.foldl_cons]
          simp only [Nat.succ_lt_succ_iff]

/-- The walk over the buffer and the list of its records leave the same behind. -/
theorem platformInitializeFrom_eq {records : List ProcessorInformation} (h : Holds m stop ptr records)
    (dwPageSize : BitVec 32) (rounds : ℕ) :
    platformInitializeFrom m dwPageSize (some (ptr, stop)) rounds =
      if rounds < records.length then none else some (platformInitialize dwPageSize (some records)) := by
  rw [platformInitializeFrom, walk_eq h]
  split <;> rfl

/-- A record of size 0 keeps the loop for good. -/
theorem walk_stuck (hlt : ptr < stop) (hsize : size m ptr = 0) (rounds : ℕ)
    (counts : BitVec 32 × BitVec 32) : walk m stop rounds ptr counts = none := by
  induction rounds generalizing counts with
  | zero => rw [walk, if_pos hlt]
  | succ rounds ih => rw [walk, if_pos hlt, hsize, Nat.add_zero, ih]

/-! ### Writing records -/

/-- The next relationship is that of a NUMA node. -/
def relationshipValue : LogicalProcessorRelationship → ℕ
  | .relationProcessorCore => 0
  | .other => 1

def writeMasks (m : ByteMemory) : ℕ → List (BitVec 64) → ByteMemory
  | _, [] => m
  | a, mask :: masks => writeMasks (m.store a 8 mask.toNat) (a + 16) masks

def recordSize (r : ProcessorInformation) : ℕ := 32 + 16 * r.groupMasks.length

def writeRecord (m : ByteMemory) (ptr : ℕ) (r : ProcessorInformation) : ByteMemory :=
  writeMasks
    (((m.store ptr 4 (relationshipValue r.relationship)).store (ptr + 4) 4 (recordSize r)).store
      (ptr + 30) 2 r.groupMasks.length)
    (ptr + 32) r.groupMasks

def writeRecords (m : ByteMemory) : ℕ → List ProcessorInformation → ByteMemory
  | _, [] => m
  | ptr, r :: records => writeRecords (writeRecord m ptr r) (ptr + recordSize r) records

/-- The first byte behind the records. -/
def behind : ℕ → List ProcessorInformation → ℕ
  | ptr, [] => ptr
  | ptr, r :: records => behind (ptr + recordSize r) records

theorem load_writeMasks {a b w : ℕ} (masks : List (BitVec 64)) (h : b + w ≤ a) :
    (writeMasks m a masks).load b w = m.load b w := by
  induction masks generalizing m a with
  | nil => rfl
  | cons mask masks ih =>
      rw [writeMasks, ih (by omega), ByteMemory.load_store_disjoint m mask.toNat (.inl h)]

theorem load_writeRecords {b w : ℕ} (records : List ProcessorInformation) (h : b + w ≤ ptr) :
    (writeRecords m ptr records).load b w = m.load b w := by
  induction records generalizing m ptr with
  | nil => rfl
  | cons r records ih =>
      rw [writeRecords, ih (by omega), writeRecord, load_writeMasks _ (by omega),
        ByteMemory.load_store_disjoint _ _ (.inl (by omega)),
        ByteMemory.load_store_disjoint _ _ (.inl (by omega)),
        ByteMemory.load_store_disjoint _ _ (.inl (by omega))]

theorem groupMask_writeMasks {a : ℕ} (masks : List (BitVec 64)) {g : ℕ} (hg : g < masks.length) :
    BitVec.ofNat 64 ((writeMasks m a masks).load (a + 16 * g) 8) = masks[g] := by
  induction masks generalizing m a g with
  | nil => exact absurd hg (Nat.not_lt_zero g)
  | cons mask masks ih =>
      rw [writeMasks]
      cases g with
      | zero =>
          have hfits : mask.toNat < 256 ^ 8 := mask.isLt
          rw [Nat.mul_zero, load_writeMasks _ (by omega), Nat.add_zero, ByteMemory.load_store_self,
            Nat.mod_eq_of_lt hfits, BitVec.ofNat_toNat, BitVec.setWidth_eq]
          rfl
      | succ g =>
          have hnext := ih (m := m.store a 8 mask.toNat) (a := a + 16) (Nat.lt_of_succ_lt_succ hg)
          rw [show a + 16 * (g + 1) = a + 16 + 16 * g by omega]
          exact hnext

/-- What a record says of itself is what was written. -/
theorem writeRecord_reads (m' : ByteMemory) (hgroups : r.groupMasks.length < 65536)
    (hsame : ∀ b w, b + w ≤ ptr + recordSize r → m'.load b w = (writeRecord m ptr r).load b w) :
    HoldsRecord m' ptr r ∧ size m' ptr = recordSize r := by
  have hrecord : recordSize r = 32 + 16 * r.groupMasks.length := rfl
  have hcount : groupCount m' ptr = r.groupMasks.length := by
    rw [groupCount, hsame _ _ (by omega), writeRecord, load_writeMasks _ (by omega),
      ByteMemory.load_store_self, Nat.mod_eq_of_lt (by omega)]
  refine ⟨⟨?_, fun _ => ?_⟩, ?_⟩
  · rw [ProcessorBuffer.relationship, hsame _ _ (by omega), writeRecord, load_writeMasks _ (by omega),
      ByteMemory.load_store_disjoint _ _ (.inl (by omega)),
      ByteMemory.load_store_disjoint _ _ (.inl (by omega)), ByteMemory.load_store_self]
    cases r.relationship <;> rfl
  · rw [hcount]
    apply List.ext_getElem
    · rw [List.length_map, List.length_range]
    · intro g _ hg
      rw [List.getElem_map, List.getElem_range, groupMask, hsame _ _ (by omega), writeRecord,
        groupMask_writeMasks _ hg]
  · rw [size, hsame _ _ (by omega), writeRecord, load_writeMasks _ (by omega),
      ByteMemory.load_store_disjoint _ _ (.inl (by omega)), ByteMemory.load_store_self,
      Nat.mod_eq_of_lt (by omega)]

theorem writeRecords_holds (m : ByteMemory) (ptr : ℕ) {records : List ProcessorInformation}
    (hgroups : ∀ r ∈ records, r.groupMasks.length < 65536) :
    Holds (writeRecords m ptr records) (behind ptr records) ptr records := by
  induction records generalizing m ptr with
  | nil => rfl
  | cons r records ih =>
      obtain ⟨hr, hrecords⟩ := List.forall_mem_cons.mp hgroups
      have hsame : ∀ b w, b + w ≤ ptr + recordSize r →
          (writeRecords m ptr (r :: records)).load b w = (writeRecord m ptr r).load b w :=
        fun b w h => load_writeRecords records h
      obtain ⟨hholds, hsize⟩ := writeRecord_reads _ hr hsame
      refine ⟨hholds, ?_, ?_⟩
      · rw [hsize, recordSize]
        omega
      · rw [hsize]
        exact ih _ _ hrecords

end ProcessorBuffer

/-! ### The records of a topology -/

/-- The number of bits of a mask whose bits are those from `lo` up to and without `hi`. -/
theorem cpopNatRec_block {x : BitVec 64} {lo hi : ℕ}
    (h : ∀ k, x.getLsbD k = decide (lo ≤ k ∧ k < hi)) (n : ℕ) :
    x.cpopNatRec n 0 = min n hi - min n lo := by
  induction n with
  | zero => simp
  | succ n ih =>
      rw [BitVec.cpopNatRec_succ, BitVec.cpopNatRec_eq, ih, h]
      by_cases hin : lo ≤ n ∧ n < hi
      · simp only [hin, and_self, decide_true, Bool.toNat_true]
        omega
      · simp only [hin, decide_false, Bool.toNat_false]
        omega

namespace Topology

variable {t : Topology}

/-- The mask of core `i` has a bit for each of its processors. -/
theorem cpop_mask {i size : ℕ} (h : t.cores[i]? = some size) :
    (BitVec.ofNat 64 ((2 ^ size - 1) <<< Blocks.first t.cores i)).cpop.setWidth 32 =
      BitVec.ofNat 32 size := by
  have hi : i < t.cores.length := (List.getElem?_eq_some_iff.mp h).1
  have hnext := Blocks.first_succ h
  have htotal : Blocks.first t.cores (i + 1) ≤ 64 :=
    Nat.le_trans (Blocks.first_mono t.cores hi) t.total_le
  have hbits : ∀ k, (BitVec.ofNat 64 ((2 ^ size - 1) <<< Blocks.first t.cores i)).getLsbD k =
      decide (Blocks.first t.cores i ≤ k ∧ k < Blocks.first t.cores (i + 1)) := by
    intro k
    rw [Bool.eq_iff_iff]
    simp only [BitVec.getLsbD_ofNat, Nat.testBit_shiftLeft, ge_iff_le, Nat.testBit_two_pow_sub_one,
      Bool.and_eq_true, decide_eq_true_eq]
    omega
  have hcount : min 64 (Blocks.first t.cores (i + 1)) - min 64 (Blocks.first t.cores i) = size := by
    omega
  rw [BitVec.cpop, cpopNatRec_block hbits, hcount]
  apply BitVec.eq_of_toNat_eq
  rw [BitVec.toNat_setWidth, BitVec.toNat_ofNat, BitVec.toNat_ofNat]
  omega

/-- What the loop has counted after the first `i` records. -/
theorem counted (t : Topology) {i : ℕ} (hi : i ≤ t.cores.length) :
    ((t.records.take i).foldl countInformation (0#32, 0#32)).2 =
      BitVec.ofNat 32 (Blocks.first t.cores i) := by
  induction i with
  | zero => rw [List.take_zero, List.foldl_nil, Blocks.first_zero]
  | succ i ih =>
      have hcore : t.cores[i]? = some t.cores[i] := List.getElem?_eq_getElem hi
      have hrecord : t.records[i]? = some (t.record i t.cores[i]) := by
        rw [records, List.getElem?_mapIdx, hcore]
        rfl
      rw [List.take_add_one, hrecord, Option.toList_some, List.foldl_append, List.foldl_cons,
        List.foldl_nil, countInformation, record]
      simp only [List.foldl_cons, List.foldl_nil, ih (Nat.le_of_succ_le hi), cpop_mask hcore]
      rw [← BitVec.ofNat_add, Blocks.first_succ hcore]

theorem platformInitialize_processors (t : Topology) (dwPageSize : BitVec 32) :
    (platformInitialize dwPageSize (some t.records)).cpuLogicalProcessorCount.toNat =
      Blocks.first t.cores t.cores.length := by
  have hlength : t.records.length = t.cores.length := List.length_mapIdx
  have htotal := t.total_le
  have hcounted := t.counted (Nat.le_refl _)
  rw [List.take_of_length_le (Nat.le_of_eq hlength)] at hcounted
  change (t.records.foldl countInformation (0#32, 0#32)).2.toNat = _
  rw [hcounted, BitVec.toNat_ofNat]
  omega

/-- From every buffer that holds the records of a topology `Initialize` learns its cores, its logical
processors, and whether some core has more than one of them; it takes a round for each record. -/
theorem initialize_learns (t : Topology) (m : ByteMemory) (ptr stop : ℕ) (dwPageSize : BitVec 32)
    (h : ProcessorBuffer.Holds m stop ptr t.records) :
    (∀ rounds < t.cores.length,
      ProcessorBuffer.platformInitializeFrom m dwPageSize (some (ptr, stop)) rounds = none) ∧
    ∃ info : OSInfo, info.cpuPhysicalCoreCount.toNat = t.cores.length ∧
      info.cpuLogicalProcessorCount.toNat = Blocks.first t.cores t.cores.length ∧
      info.osPageSize = dwPageSize ∧
      (info.cpuHasSMT = true ↔ ∃ size ∈ t.cores, 2 ≤ size) ∧
      ∀ rounds, t.cores.length ≤ rounds →
        ProcessorBuffer.platformInitializeFrom m dwPageSize (some (ptr, stop)) rounds = some info := by
  have hlength : t.records.length = t.cores.length := List.length_mapIdx
  refine ⟨fun rounds hrounds => ?_, platformInitialize dwPageSize (some t.records),
    t.platformInitialize_cores dwPageSize, t.platformInitialize_processors dwPageSize, rfl, ?_,
    fun rounds hrounds => ?_⟩
  · rw [ProcessorBuffer.platformInitializeFrom_eq h, hlength, if_pos hrounds]
  · have hsmt : (platformInitialize dwPageSize (some t.records)).cpuHasSMT = true ↔
        (platformInitialize dwPageSize (some t.records)).cpuPhysicalCoreCount.toNat <
          (platformInitialize dwPageSize (some t.records)).cpuLogicalProcessorCount.toNat :=
      decide_eq_true_iff
    rw [hsmt, t.platformInitialize_cores, t.platformInitialize_processors]
    exact Blocks.length_lt_first_iff t.occupied
  · rw [ProcessorBuffer.platformInitializeFrom_eq h, hlength, if_neg (Nat.not_lt.mpr hrounds)]

/-- A core with two logical processors and one with a single one. -/
def unequalCores : Topology where
  cores := [2, 1]
  occupied := by decide
  total_le := by decide

theorem initialize_learns_unequalCores : ∃ info : OSInfo,
    info.cpuPhysicalCoreCount.toNat = 2 ∧ info.cpuLogicalProcessorCount.toNat = 3 ∧
      info.cpuHasSMT = true ∧
      ProcessorBuffer.platformInitializeFrom
        (ProcessorBuffer.writeRecords (fun _ => 0#8) 4096 unequalCores.records) 4096#32
        (some (4096, 4192)) 2 = some info := by
  have hholds : ProcessorBuffer.Holds
      (ProcessorBuffer.writeRecords (fun _ => 0#8) 4096 unequalCores.records) 4192 4096
      unequalCores.records :=
    ProcessorBuffer.writeRecords_holds _ _ (by decide)
  obtain ⟨-, info, hcores, hprocessors, -, hsmt, hread⟩ :=
    initialize_learns unequalCores _ 4096 4192 4096#32 hholds
  exact ⟨info, hcores, hprocessors, hsmt.mpr ⟨2, by decide, by decide⟩, hread 2 (by decide)⟩

end Topology
end ProjectDelta
