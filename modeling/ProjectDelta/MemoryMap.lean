import ProjectDelta.RoundUp

/-!
# Address space of an engine thread

The constants of `MemoryConfig.h` that the queue, the arenas and the memory budget
use, the macro `ALIGN` and the page coordinator. Sizes and addresses are 64-bit words.
-/

namespace ProjectDelta

/-- `ALIGN(size, alignment)` -/
def align (size alignment : BitVec 64) : BitVec 64 :=
  (size + (alignment - 1#64)) &&& ~~~(alignment - 1#64)

namespace MemoryMap

def virtZoneSpaceLength : BitVec 64 := 1#64 <<< 35
def virtZoneTaOffset : BitVec 64 := 0#64
def virtZoneTaSize : BitVec 64 := 1#64 <<< 30
def virtZoneTaBaseline : BitVec 64 := 1#64 <<< 26

namespace Main

def virtZonePsOffset : BitVec 64 := virtZoneTaOffset + virtZoneTaSize
def virtZonePsSize : BitVec 64 := 1#64 <<< 31
def virtZonePsBaseline : BitVec 64 := 1#64 <<< 26
def virtZoneBaselineSum : BitVec 64 := virtZonePsSize

end Main

namespace Worker

def virtZoneQueueOffset : BitVec 64 := virtZoneTaOffset + virtZoneTaSize
def virtZoneQueueSize : BitVec 64 := 1#64 <<< 16
def virtZoneTaBaseline : BitVec 64 := 1#64 <<< 26
def virtZoneCpaBaseline : BitVec 64 := 1#64 <<< 27
def virtZoneSaBaseline : BitVec 64 := 1#64 <<< 26
def virtZoneBaselineSum : BitVec 64 :=
  virtZoneTaBaseline + virtZoneCpaBaseline + virtZoneSaBaseline

end Worker

theorem virtZoneSpaceLength_toNat : virtZoneSpaceLength.toNat = 34359738368 := by decide

theorem virtZoneTaSize_toNat : virtZoneTaSize.toNat = 1073741824 := by decide

theorem virtZoneTaBaseline_le : virtZoneTaBaseline.toNat ≤ virtZoneTaSize.toNat := by decide

theorem Main.virtZonePsSize_toNat : Main.virtZonePsSize.toNat = 2147483648 := by decide

theorem Worker.virtZoneQueueSize_toNat : Worker.virtZoneQueueSize.toNat = 65536 := by decide

theorem Worker.virtZoneQueueOffset_toNat : Worker.virtZoneQueueOffset.toNat = 1073741824 := by
  decide

end MemoryMap

structure ThreadPageCoordinator where
  virtualAddressBase : BitVec 64
  commitedOffset : BitVec 64
  reservedCapacity : BitVec 64
  pageSize : BitVec 64

/-- A coordinator whose zone does not wrap round the address space, as in a
reserved pool. -/
structure Zone extends ThreadPageCoordinator where
  fits : virtualAddressBase.toNat + MemoryMap.virtZoneSpaceLength.toNat ≤ 2 ^ 64

theorem Zone.base_lt (z : Zone) : z.virtualAddressBase.toNat + 34359738368 ≤ 2 ^ 64 := by
  have hfits := z.fits
  rwa [MemoryMap.virtZoneSpaceLength_toNat] at hfits

/-- A range of bytes `[start, start + length)`, as `Memory_Commit` gets it. -/
structure MemoryRange where
  start : BitVec 64
  length : BitVec 64

namespace MemoryRange

def Contains (r : MemoryRange) (a : ℕ) : Prop :=
  r.start.toNat ≤ a ∧ a < r.start.toNat + r.length.toNat

instance (r : MemoryRange) (a : ℕ) : Decidable (r.Contains a) :=
  inferInstanceAs (Decidable (r.start.toNat ≤ a ∧ a < r.start.toNat + r.length.toNat))

def Disjoint (r r' : MemoryRange) : Prop := ∀ a, ¬ (r.Contains a ∧ r'.Contains a)

def Inside (r r' : MemoryRange) : Prop := ∀ a, r.Contains a → r'.Contains a

theorem disjoint_of_ordered {r r' : MemoryRange}
    (h : r.start.toNat + r.length.toNat ≤ r'.start.toNat ∨
      r'.start.toNat + r'.length.toNat ≤ r.start.toNat) : r.Disjoint r' := by
  rintro a ⟨⟨hlo, hhi⟩, hlo', hhi'⟩
  omega

theorem inside_of_le {r r' : MemoryRange} (hstart : r'.start.toNat ≤ r.start.toNat)
    (hend : r.start.toNat + r.length.toNat ≤ r'.start.toNat + r'.length.toNat) : r.Inside r' := by
  rintro a ⟨hlo, hhi⟩
  exact ⟨hstart.trans hlo, hhi.trans_le hend⟩

end MemoryRange

/-- A power of two that fits in a word. -/
structure Alignment where
  log : ℕ
  fits : log < 64

namespace Alignment

def value (a : Alignment) : BitVec 64 := BitVec.twoPow 64 a.log

theorem value_toNat (a : Alignment) : a.value.toNat = 2 ^ a.log :=
  BitVec.toNat_twoPow_of_lt a.fits

theorem dvd_word (a : Alignment) : a.value.toNat ∣ 2 ^ 64 := by
  rw [a.value_toNat]
  exact pow_dvd_pow 2 a.fits.le

theorem value_pos (a : Alignment) : 0 < a.value.toNat := by
  rw [a.value_toNat]
  exact Nat.two_pow_pos a.log

/-- 4 KB -/
def smallPage : Alignment := ⟨12, by decide⟩

end Alignment

theorem align_toNat (x : BitVec 64) (a : Alignment) :
    (align x a.value).toNat =
      (x.toNat + (a.value.toNat - 1)) % 2 ^ 64 / a.value.toNat * a.value.toNat := by
  rw [a.value_toNat]
  exact RoundUp.toNat_round x a.fits

theorem align_toNat_mod (x : BitVec 64) (a : Alignment) :
    (align x a.value).toNat = RoundUp.up x.toNat a.value.toNat % 2 ^ 64 := by
  rw [a.value_toNat]
  exact RoundUp.toNat_round_eq_up_mod x a.fits

/-- When the rounded address fits in a word, `ALIGN` computes it. -/
theorem align_toNat_of_fits (x : BitVec 64) (a : Alignment)
    (h : RoundUp.up x.toNat a.value.toNat < 2 ^ 64) :
    (align x a.value).toNat = RoundUp.up x.toNat a.value.toNat := by
  have hsum : x.toNat + (a.value.toNat - 1) < 2 ^ 64 := by
    rw [a.value_toNat] at h ⊢
    exact RoundUp.add_lt_of_up_lt a.fits h
  rw [align_toNat, Nat.mod_eq_of_lt hsum, RoundUp.up]

theorem dvd_align (x : BitVec 64) (a : Alignment) : a.value.toNat ∣ (align x a.value).toNat := by
  rw [align_toNat]
  exact Nat.dvd_mul_left a.value.toNat _

end ProjectDelta
