import Mathlib.Logic.Function.Iterate
import Mathlib.Order.Basic

/-!
# Visiting numbered places in a cycle

The places `1` to `n` are visited in the order `next n`. `Visited n ix e P` says
that `P` holds at each of the `e` places visited last before `ix`. A further
visit extends it by one, and after `n` visits no place is left out.
-/

namespace CyclicScan

def next (n j : ℕ) : ℕ := 1 + j % n

def Visited (n ix e : ℕ) (P : ℕ → Prop) : Prop :=
  ∀ k, 1 ≤ k → k ≤ e → ∀ j, 1 ≤ j → j ≤ n → (next n)^[k] j = ix → P j

variable {n ix e j : ℕ} {P P' : ℕ → Prop}

theorem one_le_next (n j : ℕ) : 1 ≤ next n j := Nat.le_add_right 1 _

theorem next_le (hn : 1 ≤ n) (j : ℕ) : next n j ≤ n := by
  have hlt : j % n < n := Nat.mod_lt j hn
  unfold next
  omega

/-- From a place in the cycle, `k` visits later. -/
theorem iterate_next (hj : 1 ≤ j) (hjn : j ≤ n) (k : ℕ) :
    (next n)^[k] j = 1 + (j - 1 + k) % n := by
  induction k with
  | zero =>
      have hlt : j - 1 < n := by omega
      rw [Function.iterate_zero_apply, Nat.add_zero, Nat.mod_eq_of_lt hlt]
      omega
  | succ k ih =>
      rw [Function.iterate_succ_apply', ih, next, Nat.add_mod_mod]
      congr 2
      omega

theorem next_of_lt (h : j < n) : next n j = j + 1 := by
  rw [next, Nat.mod_eq_of_lt h, Nat.add_comm]

theorem next_last (n : ℕ) : next n n = 1 := by rw [next, Nat.mod_self]

theorem next_injective {i : ℕ} (hi : 1 ≤ i) (hin : i ≤ n) (hj : 1 ≤ j) (hjn : j ≤ n)
    (h : next n i = next n j) : i = j := by
  rcases Nat.lt_or_eq_of_le hin with hlt | rfl <;> rcases Nat.lt_or_eq_of_le hjn with hlt' | rfl
  · rw [next_of_lt hlt, next_of_lt hlt'] at h
    omega
  · rw [next_of_lt hlt, next_last] at h
    omega
  · rw [next_last, next_of_lt hlt'] at h
    omega
  · rfl

theorem visited_zero (n ix : ℕ) (P : ℕ → Prop) : Visited n ix 0 P := by
  intro k hk hk0
  omega

theorem Visited.mono (h : Visited n ix e P) (hP : ∀ j, P j → P' j) : Visited n ix e P' :=
  fun k hk hke j hj hjn heq => hP j (h k hk hke j hj hjn heq)

theorem Visited.visit (h : Visited n ix e P) (hix : 1 ≤ ix) (hixn : ix ≤ n) (hP : P ix) :
    Visited n (next n ix) (e + 1) P := by
  intro k hk hke j hj hjn heq
  obtain ⟨m, rfl⟩ : ∃ m, k = m + 1 := ⟨k - 1, by omega⟩
  have hplace := iterate_next hj hjn m
  have hlt : (j - 1 + m) % n < n := Nat.mod_lt _ (by omega)
  rw [Function.iterate_succ_apply'] at heq
  have hback : (next n)^[m] j = ix := next_injective (by omega) (by omega) hix hixn heq
  cases m with
  | zero =>
      rw [Function.iterate_zero_apply] at hback
      exact hback ▸ hP
  | succ m => exact h (m + 1) (by omega) (by omega) j hj hjn hback

/-- After `n` visits every place has been visited. -/
theorem Visited.all (h : Visited n ix e P) (he : n ≤ e) (hix : 1 ≤ ix) (hixn : ix ≤ n)
    (hj : 1 ≤ j) (hjn : j ≤ n) : P j := by
  rcases Nat.lt_or_ge j ix with hlt | hge
  · apply h (ix - j) (by omega) (by omega) j hj hjn
    rw [iterate_next hj hjn, Nat.mod_eq_of_lt (by omega)]
    omega
  · apply h (ix + n - j) (by omega) (by omega) j hj hjn
    rw [iterate_next hj hjn, show j - 1 + (ix + n - j) = ix - 1 + n by omega,
      Nat.add_mod_right, Nat.mod_eq_of_lt (by omega)]
    omega

end CyclicScan
