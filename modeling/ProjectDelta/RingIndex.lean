import Mathlib.Data.Int.Bitwise
import Mathlib.Data.Int.ModEq
import Mathlib.Data.Int.Range
import Mathlib.Tactic.Linarith
import Mathlib.Tactic.Positivity
import Mathlib.Tactic.Ring

/-!
# Ring positions of integer indices

An ever growing index is placed in a ring of `2 ^ k` cells by masking its low
bits. Masking is reduction modulo the ring length, so indices less than one
revolution apart never share a cell. The second part lists the integers of a
window `[lo, hi)` and grows or shrinks that window at either end.
-/

namespace RingIndex

theorem land_mask (b : ℤ) (k : ℕ) : Int.land b (2 ^ k - 1) = b % 2 ^ k := by
  have hpos : 0 < 2 ^ k := Nat.two_pow_pos k
  have hmask : (2 ^ k - 1 : ℤ) = ((2 ^ k - 1 : ℕ) : ℤ) := by
    push_cast [Nat.one_le_two_pow]
    ring
  rw [hmask]
  cases b with
  | ofNat m =>
      change ((m &&& (2 ^ k - 1) : ℕ) : ℤ) = (m : ℤ) % 2 ^ k
      rw [Nat.and_two_pow_sub_one_eq_mod]
      push_cast
      rfl
  | negSucc m =>
      -- the low bits of a negative number are the complement of those of `m`
      change ((Nat.ldiff (2 ^ k - 1) m : ℕ) : ℤ) = Int.negSucc m % 2 ^ k
      have hlt : m % 2 ^ k < 2 ^ k := Nat.mod_lt m hpos
      have hbits : Nat.ldiff (2 ^ k - 1) m = 2 ^ k - (m % 2 ^ k + 1) := by
        apply Nat.eq_of_testBit_eq
        intro i
        rw [Nat.testBit_ldiff, Nat.testBit_two_pow_sub_one, Nat.testBit_two_pow_sub_succ hlt,
          Nat.testBit_mod_two_pow]
        by_cases hi : i < k <;> simp [hi]
      rw [hbits, Int.negSucc_emod m (by positivity)]
      push_cast [Nat.cast_sub (show m % 2 ^ k + 1 ≤ 2 ^ k by omega)]
      ring

/-- Two indices less than a full revolution apart have different cells. -/
theorem emod_ne_of_near {i j n : ℤ} (hij : i < j) (hn : j - i < n) : i % n ≠ j % n := by
  intro he
  have hdvd : n ∣ j - i := Int.ModEq.dvd he
  obtain ⟨c, hc⟩ := hdvd
  have hn0 : 0 < n := by omega
  have hc0 : 0 < c := by
    by_contra! h
    nlinarith
  nlinarith

/-! ### Windows -/

theorem range_empty {lo hi : ℤ} (h : hi ≤ lo) : Int.range lo hi = [] := by
  simp [Int.range, Int.toNat_of_nonpos (show hi - lo ≤ 0 by omega)]

theorem range_snoc {lo hi : ℤ} (h : lo ≤ hi) : Int.range lo (hi + 1) = Int.range lo hi ++ [hi] := by
  have hlen : (hi + 1 - lo).toNat = (hi - lo).toNat + 1 := by omega
  simp only [Int.range, hlen, List.range_succ, List.map_append, List.map_cons, List.map_nil]
  congr 2
  omega

theorem range_cons {lo hi : ℤ} (h : lo < hi) : Int.range lo hi = lo :: Int.range (lo + 1) hi := by
  have hlen : (hi - lo).toNat = (hi - (lo + 1)).toNat + 1 := by omega
  simp only [Int.range, hlen, List.range_succ_eq_map, List.map_cons, List.map_map]
  congr 1
  · simp
  · apply List.map_congr_left
    intro r _
    simp only [Function.comp_apply]
    push_cast
    ring

theorem length_range (lo hi : ℤ) : (Int.range lo hi).length = (hi - lo).toNat := by
  simp [Int.range]

theorem map_range_congr {α : Type*} {f g : ℤ → α} {lo hi : ℤ}
    (h : ∀ i, lo ≤ i → i < hi → f i = g i) :
    (Int.range lo hi).map f = (Int.range lo hi).map g := by
  apply List.map_congr_left
  intro i hi'
  obtain ⟨h1, h2⟩ := Int.mem_range_iff.mp hi'
  exact h i h1 h2

end RingIndex
