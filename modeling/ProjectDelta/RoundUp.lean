import Mathlib.Data.Nat.Bitwise
import Mathlib.Tactic.Positivity
import Mathlib.Tactic.Ring

/-!
# Rounding up to a power of two

In `w`-bit words, adding `a - 1` and clearing the low bits rounds up to a
multiple of `a = 2 ^ k`. As long as the addition does not wrap, the result is the
least multiple that is not below the argument; when it wraps, the result is
still a multiple, of the wrapped sum.
-/

namespace RoundUp

variable {w k : ℕ}

theorem toNat_pred_twoPow (hk : k < w) : (BitVec.twoPow w k - 1#w).toNat = 2 ^ k - 1 := by
  have hone : (1#w).toNat = 1 := BitVec.toNat_one (by omega)
  have htwo : (BitVec.twoPow w k).toNat = 2 ^ k := BitVec.toNat_twoPow_of_lt hk
  have hpos : 0 < 2 ^ k := Nat.two_pow_pos k
  rw [BitVec.toNat_sub_of_le (by rw [BitVec.le_def]; omega), hone, htwo]

theorem toNat_clear_low (x : BitVec w) (hk : k < w) :
    (x &&& ~~~(BitVec.twoPow w k - 1#w)).toNat = x.toNat / 2 ^ k * 2 ^ k := by
  apply Nat.eq_of_testBit_eq
  intro i
  rw [BitVec.toNat_and, BitVec.toNat_not, toNat_pred_twoPow hk, mul_comm, Nat.testBit_two_pow_mul]
  have hlt : 2 ^ k - 1 < 2 ^ w := by
    have := Nat.pow_le_pow_right (show 0 < 2 by decide) hk.le
    have := Nat.two_pow_pos k
    omega
  rw [Nat.testBit_and, Nat.sub_sub, Nat.add_comm 1, Nat.testBit_two_pow_sub_succ hlt,
    Nat.testBit_two_pow_sub_one, Nat.testBit_div_two_pow]
  by_cases hik : i < k
  · simp [hik]
  · have hadd : i - k + k = i := by omega
    by_cases hiw : i < w
    · simp [hik, hiw, hadd, show k ≤ i by omega]
    · have hzero : x.toNat.testBit i = false :=
        Nat.testBit_lt_two_pow (x.isLt.trans_le (Nat.pow_le_pow_right (by decide) (by omega)))
      simp [hzero, hadd]

theorem toNat_round (x : BitVec w) (hk : k < w) :
    ((x + (BitVec.twoPow w k - 1#w)) &&& ~~~(BitVec.twoPow w k - 1#w)).toNat =
      (x.toNat + (2 ^ k - 1)) % 2 ^ w / 2 ^ k * 2 ^ k := by
  rw [toNat_clear_low _ hk, BitVec.toNat_add, toNat_pred_twoPow hk]

/-! ### The rounded number -/

def up (n a : ℕ) : ℕ := (n + (a - 1)) / a * a

theorem dvd_up (n a : ℕ) : a ∣ up n a := Nat.dvd_mul_left a _

theorem le_up (n : ℕ) {a : ℕ} (ha : 0 < a) : n ≤ up n a := by
  have hmod := Nat.mod_add_div (n + (a - 1)) a
  have hlt := Nat.mod_lt (n + (a - 1)) ha
  rw [up, mul_comm]
  omega

/-- The rounded number is the least multiple. -/
theorem up_le {n m a : ℕ} (ha : 0 < a) (hm : a ∣ m) (h : n ≤ m) : up n a ≤ m := by
  obtain ⟨c, rfl⟩ := hm
  rw [up, mul_comm a c]
  apply Nat.mul_le_mul_right
  have hlt : n + (a - 1) < a * (c + 1) := by
    rw [Nat.mul_succ]
    omega
  exact Nat.le_of_lt_succ (Nat.div_lt_of_lt_mul hlt)

theorem up_add_mul (n c : ℕ) {a : ℕ} (ha : 0 < a) : up (n + a * c) a = up n a + a * c := by
  rw [up, up, Nat.add_right_comm, Nat.add_mul_div_left _ _ ha, Nat.add_mul, mul_comm c a]

/-- The more whole multiples of `a` are there already, the lower twice the rounded rest ends. -/
theorem add_two_up_le {base top total a : ℕ} (ha : 0 < a) (hle : base ≤ top) (hdvd : a ∣ top - base)
    (hlt : top < total) : top + 2 * up (total - top) a ≤ base + 2 * up (total - base) a := by
  obtain ⟨c, hc⟩ := hdvd
  have hrest : total - base = total - top + a * c := by omega
  rw [hrest, up_add_mul _ _ ha]
  omega

/-- Rounding and reducing by a multiple of `a` commute. -/
theorem up_mod {a b : ℕ} (ha : 0 < a) (hdvd : a ∣ b) (n : ℕ) : up (n % b) a % b = up n a % b := by
  obtain ⟨c, rfl⟩ := hdvd
  have hsplit : up n a = up (n % (a * c)) a + a * c * (n / (a * c)) := by
    rw [mul_assoc, ← up_add_mul _ _ ha, ← mul_assoc, Nat.mod_add_div]
  rw [hsplit, Nat.add_mul_mod_self_left]

/-- A word that wraps is rounded like its residue. -/
theorem toNat_round_eq_up_mod (x : BitVec w) (hk : k < w) :
    ((x + (BitVec.twoPow w k - 1#w)) &&& ~~~(BitVec.twoPow w k - 1#w)).toNat =
      up x.toNat (2 ^ k) % 2 ^ w := by
  have hw : 2 ^ w = 2 ^ k * 2 ^ (w - k) := by rw [← pow_add, Nat.add_sub_cancel' hk.le]
  rw [toNat_round x hk, up, hw, Nat.mod_mul_right_div_self, mul_comm (2 ^ k) (2 ^ (w - k)),
    Nat.mul_mod_mul_right]

/-- The word addition wraps only when the rounded number does not fit either. -/
theorem add_lt_of_up_lt {n : ℕ} (hk : k < w) (h : up n (2 ^ k) < 2 ^ w) :
    n + (2 ^ k - 1) < 2 ^ w := by
  have hpos : 0 < 2 ^ k := Nat.two_pow_pos k
  have hle : n ≤ up n (2 ^ k) := le_up n hpos
  obtain ⟨c, hc⟩ := dvd_up n (2 ^ k)
  have hw : 2 ^ w = 2 ^ k * 2 ^ (w - k) := by rw [← pow_add, Nat.add_sub_cancel' hk.le]
  have hlast : c + 1 ≤ 2 ^ (w - k) := by
    rw [hc, hw] at h
    exact Nat.lt_of_mul_lt_mul_left h
  have hroom : up n (2 ^ k) + 2 ^ k ≤ 2 ^ w := by
    rw [hc, hw, ← Nat.mul_succ]
    exact Nat.mul_le_mul_left _ hlast
  omega

end RoundUp
