import ProjectDelta.MemoryMap

/-!
# The arena allocator

`ThreadArena_Allocate` in 64-bit words, with the outcomes of `Memory_Commit` and
`Memory_Lock` as arguments. The growth path compares `totalSpace`, without the
offset, to the capacity, and it is the success of both calls that makes it give
up; both are kept here as they are in the source. `exactNeed` is the end of the
block, relative to the arena, in unbounded arithmetic.
-/

namespace ProjectDelta

structure ThreadArena where
  backingMemory : BitVec 64
  capacity : BitVec 64
  offset : BitVec 64
  maxCapacity : BitVec 64

/-- Whether `Memory_Commit` and `Memory_Lock` succeed, should they be called. -/
structure OsOutcome where
  commit : Bool
  lock : Bool

/-- `block` is `none` for `nullptr`; `request` is what `Memory_Commit` was called with. -/
structure Allocation where
  arena : ThreadArena
  block : Option (BitVec 64)
  request : Option MemoryRange

namespace ThreadArena

variable (arena : ThreadArena)

def currentAddress : BitVec 64 := arena.backingMemory + arena.offset

def alignedAddress (alignment : BitVec 64) : BitVec 64 := align arena.currentAddress alignment

def padding (alignment : BitVec 64) : BitVec 64 :=
  arena.alignedAddress alignment - arena.currentAddress

def totalSpace (size alignment : BitVec 64) : BitVec 64 := arena.padding alignment + size

def bytesNeeded (size alignment : BitVec 64) : BitVec 64 :=
  arena.totalSpace size alignment - arena.capacity

def spaceInPages (pageSize size alignment : BitVec 64) : BitVec 64 :=
  align (arena.bytesNeeded size alignment) pageSize * 2#64

def targetAddress : BitVec 64 := arena.backingMemory + arena.capacity

/-- All that the arena may grow to. -/
def fullRange : MemoryRange := ⟨arena.backingMemory, arena.maxCapacity⟩

/-- `none` is a failed assertion. -/
def allocate (asserts : Bool) (pageSize : BitVec 64) (os : OsOutcome)
    (size alignment : BitVec 64) : Option Allocation :=
  let alignedAddress := arena.alignedAddress alignment
  let totalSpace := arena.totalSpace size alignment
  if asserts ∧ arena.offset + totalSpace > arena.maxCapacity then none
  else if totalSpace > arena.capacity then
    let spaceInPages := arena.spaceInPages pageSize size alignment
    let request : MemoryRange := ⟨arena.targetAddress, spaceInPages⟩
    if os.commit ∧ os.lock then some ⟨arena, none, some request⟩
    else
      let arena := { arena with capacity := arena.capacity + spaceInPages }
      some ⟨{ arena with offset := arena.offset + totalSpace }, some alignedAddress, some request⟩
  else some ⟨{ arena with offset := arena.offset + totalSpace }, some alignedAddress, none⟩

def reset : ThreadArena := { arena with offset := 0#64 }

/-- The arena and the baseline that is committed for it. -/
def initializeArena (pageCoord : ThreadPageCoordinator) (offset baseline maxCapacity : BitVec 64) :
    ThreadArena × MemoryRange :=
  let pTarget := pageCoord.virtualAddressBase + offset
  (⟨pTarget, baseline, 0#64, maxCapacity⟩, ⟨pTarget, baseline⟩)

/-! ### Outcomes of one allocation -/

variable {arena} {asserts : Bool} {pageSize size alignment : BitVec 64} {os : OsOutcome}
  {r : Allocation}

/-- `nullptr` changes nothing. Otherwise the block is the aligned address, the offset moves by
`totalSpace`, and the capacity has grown when `totalSpace` alone exceeded it. -/
theorem allocate_cases (h : arena.allocate asserts pageSize os size alignment = some r) :
    (r = ⟨arena, none, some ⟨arena.targetAddress, arena.spaceInPages pageSize size alignment⟩⟩ ∧
        arena.totalSpace size alignment > arena.capacity ∧ os.commit ∧ os.lock) ∨
      (r = ⟨{ arena with
            capacity := arena.capacity + arena.spaceInPages pageSize size alignment
            offset := arena.offset + arena.totalSpace size alignment },
          some (arena.alignedAddress alignment),
          some ⟨arena.targetAddress, arena.spaceInPages pageSize size alignment⟩⟩ ∧
        arena.totalSpace size alignment > arena.capacity ∧ ¬ (os.commit ∧ os.lock)) ∨
      (r = ⟨{ arena with offset := arena.offset + arena.totalSpace size alignment },
          some (arena.alignedAddress alignment), none⟩ ∧
        ¬ arena.totalSpace size alignment > arena.capacity) := by
  unfold allocate at h
  by_cases hover : asserts ∧ arena.offset + arena.totalSpace size alignment > arena.maxCapacity
  · simp only [if_pos hover] at h
    cases h
  · by_cases hgrow : arena.totalSpace size alignment > arena.capacity
    · by_cases hos : os.commit ∧ os.lock
      · simp only [if_neg hover, if_pos hgrow, if_pos hos] at h
        exact Or.inl ⟨(Option.some.inj h).symm, hgrow, hos⟩
      · simp only [if_neg hover, if_pos hgrow, if_neg hos] at h
        exact Or.inr (Or.inl ⟨(Option.some.inj h).symm, hgrow, hos⟩)
    · simp only [if_neg hover, if_neg hgrow] at h
      exact Or.inr (Or.inr ⟨(Option.some.inj h).symm, hgrow⟩)

/-! ### Exact arithmetic -/

variable (arena) in
def exactPadding (alignment : Alignment) : ℕ :=
  RoundUp.up (arena.backingMemory.toNat + arena.offset.toNat) alignment.value.toNat -
    (arena.backingMemory.toNat + arena.offset.toNat)

variable (arena) in
def exactNeed (size : BitVec 64) (alignment : Alignment) : ℕ :=
  arena.offset.toNat + arena.exactPadding alignment + size.toNat

/-- What the words of one allocation are when its block ends inside a limit that does not wrap. -/
structure Exact (arena : ThreadArena) (size : BitVec 64) (alignment : Alignment) : Prop where
  aligned : (arena.alignedAddress alignment.value).toNat =
    arena.backingMemory.toNat + arena.offset.toNat + arena.exactPadding alignment
  totalSpace : (arena.totalSpace size alignment.value).toNat =
    arena.exactPadding alignment + size.toNat
  offset : (arena.offset + arena.totalSpace size alignment.value).toNat =
    arena.exactNeed size alignment

theorem exact_of_fits {alignment : Alignment} {limit : ℕ}
    (hlimit : arena.backingMemory.toNat + limit < 2 ^ 64)
    (hneed : arena.exactNeed size alignment ≤ limit) : Exact arena size alignment := by
  have hup := RoundUp.le_up (arena.backingMemory.toNat + arena.offset.toNat) alignment.value_pos
  have hpadding : arena.backingMemory.toNat + arena.offset.toNat + arena.exactPadding alignment =
      RoundUp.up (arena.backingMemory.toNat + arena.offset.toNat) alignment.value.toNat := by
    unfold exactPadding
    omega
  have hend : arena.exactNeed size alignment =
    arena.offset.toNat + arena.exactPadding alignment + size.toNat := rfl
  have hcurrent : arena.currentAddress.toNat = arena.backingMemory.toNat + arena.offset.toNat := by
    rw [currentAddress, BitVec.toNat_add, Nat.mod_eq_of_lt (by omega)]
  have haligned : (arena.alignedAddress alignment.value).toNat =
      arena.backingMemory.toNat + arena.offset.toNat + arena.exactPadding alignment := by
    rw [alignedAddress, align_toNat_of_fits _ _ (by rw [hcurrent]; omega), hcurrent, hpadding]
  have hpad : (arena.padding alignment.value).toNat = arena.exactPadding alignment := by
    rw [padding, BitVec.toNat_sub_of_le (by rw [BitVec.le_def]; omega), haligned, hcurrent]
    omega
  have htotal : (arena.totalSpace size alignment.value).toNat =
      arena.exactPadding alignment + size.toNat := by
    rw [ThreadArena.totalSpace, BitVec.toNat_add, hpad, Nat.mod_eq_of_lt (by omega)]
  refine ⟨haligned, htotal, ?_⟩
  rw [BitVec.toNat_add, htotal, Nat.mod_eq_of_lt (by omega), hend]
  omega

end ThreadArena
end ProjectDelta
