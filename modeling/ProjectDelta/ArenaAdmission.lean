import ProjectDelta.ArenaCommit

/-!
# What the arena admits

The sum that `ThreadArena_Allocate` compares to `maxCapacity` is the exact end of
the block modulo `2 ^ 64`. A request whose end is a full turn of the address
space too far is let through, and what is not let through is refused by an
assertion only.
-/

namespace ProjectDelta

namespace ThreadArena

variable (arena : ThreadArena) (size : BitVec 64) (alignment : Alignment)

/-- Where the block would end, without the offset. -/
def exactSpace : ℕ := arena.exactPadding alignment + size.toNat

theorem exactNeed_eq : arena.exactNeed size alignment =
    arena.offset.toNat + arena.exactSpace size alignment := Nat.add_assoc _ _ _

theorem padding_toNat : (arena.padding alignment.value).toNat =
    arena.exactPadding alignment % 2 ^ 64 := by
  have hcurrent : arena.currentAddress.toNat =
      (arena.backingMemory.toNat + arena.offset.toNat) % 2 ^ 64 := BitVec.toNat_add _ _
  have haligned : (arena.alignedAddress alignment.value).toNat =
      RoundUp.up (arena.backingMemory.toNat + arena.offset.toNat) alignment.value.toNat % 2 ^ 64 := by
    rw [alignedAddress, align_toNat_mod, hcurrent,
      RoundUp.up_mod alignment.value_pos alignment.dvd_word]
  have hle := RoundUp.le_up (arena.backingMemory.toNat + arena.offset.toNat) alignment.value_pos
  rw [padding, BitVec.toNat_sub, haligned, hcurrent, exactPadding]
  omega

theorem totalSpace_toNat : (arena.totalSpace size alignment.value).toNat =
    arena.exactSpace size alignment % 2 ^ 64 := by
  rw [totalSpace, BitVec.toNat_add, padding_toNat, exactSpace]
  omega

theorem offset_add_totalSpace_toNat :
    (arena.offset + arena.totalSpace size alignment.value).toNat =
      arena.exactNeed size alignment % 2 ^ 64 := by
  rw [BitVec.toNat_add, totalSpace_toNat, exactNeed_eq]
  omega

/-- The request gets past the comparison with `maxCapacity`. -/
def Admits (size alignment : BitVec 64) : Prop :=
  ¬ arena.offset + arena.totalSpace size alignment > arena.maxCapacity

theorem admits_iff : arena.Admits size alignment.value ↔
    arena.exactNeed size alignment % 2 ^ 64 ≤ arena.maxCapacity.toNat := by
  rw [Admits, gt_iff_lt, BitVec.lt_def, not_lt, offset_add_totalSpace_toNat]

/-- The comparison agrees with exact arithmetic, and what it does not admit changes nothing. -/
def AdmissionExact (asserts : Bool) (pageSize : BitVec 64) (os : OsOutcome) : Prop :=
  (arena.Admits size alignment.value ↔
      arena.exactNeed size alignment ≤ arena.maxCapacity.toNat) ∧
    (¬ arena.Admits size alignment.value →
      ∀ r, arena.allocate asserts pageSize os size alignment.value = some r →
        r.block = none ∧ r.arena.offset = arena.offset ∧ r.arena.capacity = arena.capacity)

variable {arena size alignment} {asserts : Bool} {pageSize : BitVec 64} {os : OsOutcome}

/-- The assertion is all that stops the function. -/
theorem allocate_eq_none_iff : arena.allocate asserts pageSize os size alignment.value = none ↔
    asserts = true ∧ ¬ arena.Admits size alignment.value := by
  rw [Admits, not_not]
  by_cases hover : asserts = true ∧
      arena.offset + arena.totalSpace size alignment.value > arena.maxCapacity
  · simp only [allocate, if_pos hover]
    exact ⟨fun _ => hover, fun _ => trivial⟩
  · simp only [allocate, if_neg hover]
    refine ⟨fun h => ?_, fun h => absurd h hover⟩
    split_ifs at h

/-- Without the assertion only the growth path can refuse. -/
theorem refused_iff (hnot : ¬ arena.Admits size alignment.value) :
    (∀ r, arena.allocate asserts pageSize os size alignment.value = some r →
        r.block = none ∧ r.arena.offset = arena.offset ∧ r.arena.capacity = arena.capacity) ↔
      asserts ∨ (arena.totalSpace size alignment.value > arena.capacity ∧ os.commit ∧ os.lock) := by
  constructor
  · intro h
    by_contra hneither
    obtain ⟨hassert, hgrowth⟩ := not_or.mp hneither
    obtain ⟨r, hr⟩ := Option.ne_none_iff_exists'.mp fun hnone =>
      hassert (allocate_eq_none_iff.mp hnone).1
    have hblock := (h r hr).1
    rcases allocate_cases hr with ⟨-, hgrow, hos⟩ | ⟨rfl, -⟩ | ⟨rfl, -⟩
    · exact hgrowth ⟨hgrow, hos⟩
    · cases hblock
    · cases hblock
  · intro h r hr
    rcases h with hassert | ⟨hgrow, hos⟩
    · rw [allocate_eq_none_iff.mpr ⟨hassert, hnot⟩] at hr
      cases hr
    · rcases allocate_cases hr with ⟨rfl, -⟩ | ⟨-, -, hnot⟩ | ⟨-, hnot⟩
      · exact ⟨rfl, rfl, rfl⟩
      · exact absurd hos hnot
      · exact absurd hgrow hnot

/-- Admission is exact when the exact end fits, or when it is past `maxCapacity` also after the
wrap and an assertion or the `nullptr` of the growth path refuses it. -/
theorem admissionExact_iff (arena : ThreadArena) (size : BitVec 64) (alignment : Alignment)
    (asserts : Bool) (pageSize : BitVec 64) (os : OsOutcome) :
    arena.AdmissionExact size alignment asserts pageSize os ↔
      arena.exactNeed size alignment ≤ arena.maxCapacity.toNat ∨
        (arena.maxCapacity.toNat < arena.exactNeed size alignment % 2 ^ 64 ∧
          (asserts ∨ (arena.capacity.toNat < arena.exactSpace size alignment % 2 ^ 64 ∧
            os.commit ∧ os.lock))) := by
  have hmax := arena.maxCapacity.isLt
  have hspace : arena.totalSpace size alignment.value > arena.capacity ↔
      arena.capacity.toNat < arena.exactSpace size alignment % 2 ^ 64 := by
    rw [gt_iff_lt, BitVec.lt_def, totalSpace_toNat]
  rw [← hspace]
  by_cases hadmits : arena.Admits size alignment.value
  · have hword := (admits_iff arena size alignment).mp hadmits
    constructor
    · exact fun h => Or.inl (h.1.mp hadmits)
    · rintro (hfits | ⟨hpast, -⟩)
      · exact ⟨⟨fun _ => hfits, fun _ => hadmits⟩, fun hnot => absurd hadmits hnot⟩
      · omega
  · have hword : arena.maxCapacity.toNat < arena.exactNeed size alignment % 2 ^ 64 :=
      not_le.mp fun hle => hadmits ((admits_iff arena size alignment).mpr hle)
    have hnot : ¬ arena.exactNeed size alignment ≤ arena.maxCapacity.toNat := by omega
    constructor
    · exact fun h => Or.inr ⟨hword, (refused_iff hadmits).mp (h.2 hadmits)⟩
    · rintro (hfits | ⟨-, hrefused⟩)
      · exact absurd hfits hnot
      · exact ⟨⟨fun h => absurd h hadmits, fun h => absurd h hnot⟩,
          fun _ => (refused_iff hadmits).mpr hrefused⟩

end ThreadArena

namespace ArenaHistory

/-- Behind a block of 64 bytes, a size just short of the whole address space. -/
theorem wrapped_request_admitted :
    ¬ ∀ (site : ArenaSite) (asserts : Bool) (pageSize : BitVec 64) (s : ArenaHistory),
      (machine asserts pageSize).Reach (start site) s → ∀ size alignment os,
        s.arena.AdmissionExact size alignment asserts pageSize os := by
  intro h
  let s := ((machine true 4096#64).exec (start transientSite)
    [.allocate 64#64 cacheLine ⟨true, true⟩]).getD (start transientSite)
  have hexact := (h transientSite true 4096#64 s
    (Machine.reach_of_exec [.allocate 64#64 cacheLine ⟨true, true⟩] rfl)
    18446744073709551552#64 cacheLine ⟨false, false⟩).1
  have hadmits : s.arena.Admits 18446744073709551552#64 cacheLine.value := by
    rw [ThreadArena.admits_iff]
    decide
  exact absurd (hexact.mp hadmits) (by decide)

end ArenaHistory
end ProjectDelta
