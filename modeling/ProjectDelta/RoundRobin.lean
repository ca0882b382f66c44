import Mathlib.Data.List.Induction
import ProjectDelta.CyclicScan

/-!
# Dealing a list in turn

Position `k` of a list is dealt to place `turn n k` of `n` places. `share n j k xs`
is what place `j` gets of `xs` when its head has position `k`. The head is at the
front of the share of its place, and the tail is shared as before, so collecting
in turn gives the list back.
-/

namespace RoundRobin

def turn (n k : ℕ) : ℕ := 1 + k % n

variable {α : Type*}

def share (n j : ℕ) : ℕ → List α → List α
  | _, [] => []
  | k, x :: xs => if turn n k = j then x :: share n j (k + 1) xs else share n j (k + 1) xs

variable {n j k : ℕ}

theorem one_le_turn (n k : ℕ) : 1 ≤ turn n k := Nat.le_add_right 1 _

theorem turn_le (hn : 1 ≤ n) (k : ℕ) : turn n k ≤ n := by
  have hlt : k % n < n := Nat.mod_lt k hn
  unfold turn
  omega

/-- The place after the one whose turn it is has the next turn. -/
theorem next_turn (n k : ℕ) : CyclicScan.next n (turn n k) = turn n (k + 1) := by
  rw [CyclicScan.next, turn, turn, Nat.add_mod_mod, Nat.add_comm 1 k]

@[simp] theorem share_nil (n j k : ℕ) : share n j k ([] : List α) = [] := rfl

theorem share_turn (x : α) (xs : List α) (h : turn n k = j) :
    share n j k (x :: xs) = x :: share n j (k + 1) xs := if_pos h

theorem share_other (x : α) (xs : List α) (h : turn n k ≠ j) :
    share n j k (x :: xs) = share n j (k + 1) xs := if_neg h

theorem share_append_turn (xs : List α) (x : α) (h : turn n (k + xs.length) = j) :
    share n j k (xs ++ [x]) = share n j k xs ++ [x] := by
  induction xs generalizing k with
  | nil => exact share_turn x [] h
  | cons y ys ih =>
      rw [List.length_cons, ← Nat.add_assoc, Nat.add_right_comm] at h
      by_cases hy : turn n k = j
      · rw [List.cons_append, share_turn y _ hy, share_turn y _ hy, ih h, List.cons_append]
      · rw [List.cons_append, share_other y _ hy, share_other y _ hy, ih h]

theorem share_append_other (xs : List α) (x : α) (h : turn n (k + xs.length) ≠ j) :
    share n j k (xs ++ [x]) = share n j k xs := by
  induction xs generalizing k with
  | nil => exact share_other x [] h
  | cons y ys ih =>
      rw [List.length_cons, ← Nat.add_assoc, Nat.add_right_comm] at h
      by_cases hy : turn n k = j
      · rw [List.cons_append, share_turn y _ hy, share_turn y _ hy, ih h]
      · rw [List.cons_append, share_other y _ hy, share_other y _ hy, ih h]

/-- The turn comes round to place `j` once in every `n` positions. -/
theorem length_share (hj : 1 ≤ j) (hjn : j ≤ n) (xs : List α) :
    (share n j 0 xs).length = (xs.length + (n - j)) / n := by
  induction xs using List.reverseRecOn with
  | nil =>
      rw [share_nil, List.length_nil, Nat.zero_add, Nat.div_eq_of_lt (by omega)]
  | append_singleton xs x ih =>
      have hmod := Nat.mod_lt xs.length (show 0 < n by omega)
      have hdvd : n ∣ xs.length + (n - j) + 1 ↔ turn n (0 + xs.length) = j := by
        have hsplit : xs.length + (n - j) + 1 = n * (xs.length / n) + (xs.length % n + 1 + (n - j)) := by
          have hdiv := Nat.div_add_mod xs.length n
          omega
        rw [hsplit, Nat.dvd_add_right (Nat.dvd_mul_right n _), Nat.zero_add, turn]
        constructor
        · rintro ⟨c, hc⟩
          have hc1 : c = 1 := by
            rcases c with _ | _ | c
            · omega
            · rfl
            · have hmul : n * 2 ≤ n * (c + 1 + 1) := Nat.mul_le_mul_left n (by omega)
              omega
          subst hc1
          omega
        · intro h
          exact ⟨1, by omega⟩
      have hlength : (xs ++ [x]).length + (n - j) = xs.length + (n - j) + 1 := by
        rw [List.length_append, List.length_singleton]
        omega
      rw [hlength, Nat.succ_div]
      by_cases hturn : turn n (0 + xs.length) = j
      · rw [share_append_turn xs x hturn, if_pos (hdvd.mpr hturn), List.length_append, ih,
          List.length_singleton]
      · rw [share_append_other xs x hturn, if_neg (fun h => hturn (hdvd.mp h)), ih, Nat.add_zero]

/-- Place `turn n xs.length` has had a full round for each `n` positions. -/
theorem length_share_turn (hn : 1 ≤ n) (xs : List α) :
    (share n (turn n xs.length) 0 xs).length = xs.length / n := by
  have hmod := Nat.mod_lt xs.length hn
  have hdiv := Nat.div_add_mod xs.length n
  have hrest : xs.length + (n - turn n xs.length) = n * (xs.length / n) + (n - 1) := by
    unfold turn
    omega
  rw [length_share (one_le_turn n _) (turn_le hn _), hrest, Nat.mul_add_div hn,
    Nat.div_eq_of_lt (show n - 1 < n by omega), Nat.add_zero]

end RoundRobin
