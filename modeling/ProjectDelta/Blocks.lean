import Mathlib.Data.Nat.Basic

/-!
# Consecutive blocks of numbers

A list of sizes cuts the numbers from 0 on into blocks, one behind the other.
`first sizes i` counts the numbers in front of block `i`, and `Mem sizes i k` says
that `k` is one of block `i`.
-/

namespace Blocks

def first : List ℕ → ℕ → ℕ
  | [], _ => 0
  | _ :: _, 0 => 0
  | size :: sizes, i + 1 => size + first sizes i

def Mem (sizes : List ℕ) (i k : ℕ) : Prop := first sizes i ≤ k ∧ k < first sizes (i + 1)

instance (sizes : List ℕ) (i k : ℕ) : Decidable (Mem sizes i k) :=
  inferInstanceAs (Decidable (_ ∧ _))

@[simp] theorem first_zero (sizes : List ℕ) : first sizes 0 = 0 := by cases sizes <;> rfl

theorem first_succ {sizes : List ℕ} {i size : ℕ} (h : sizes[i]? = some size) :
    first sizes (i + 1) = first sizes i + size := by
  induction sizes generalizing i with
  | nil => cases h
  | cons size' sizes ih =>
      cases i with
      | zero =>
          obtain rfl := Option.some.inj h
          rw [first_zero, Nat.zero_add, Nat.zero_add, first, first_zero, Nat.add_zero]
      | succ i => rw [first, ih h, first, Nat.add_assoc]

theorem first_succ_of_none {sizes : List ℕ} {i : ℕ} (h : sizes[i]? = none) :
    first sizes (i + 1) = first sizes i := by
  induction sizes generalizing i with
  | nil => rfl
  | cons size sizes ih =>
      cases i with
      | zero => cases h
      | succ i => rw [first, ih h, first]

theorem first_le_succ (sizes : List ℕ) (i : ℕ) : first sizes i ≤ first sizes (i + 1) := by
  cases h : sizes[i]? with
  | none => exact Nat.le_of_eq (first_succ_of_none h).symm
  | some size =>
      rw [first_succ h]
      exact Nat.le_add_right _ _

theorem first_mono (sizes : List ℕ) {i j : ℕ} (h : i ≤ j) : first sizes i ≤ first sizes j := by
  induction h with
  | refl => exact Nat.le_refl _
  | step _ ih => exact Nat.le_trans ih (first_le_succ sizes _)

/-- Blocks that are not empty hold at least one number each. -/
theorem le_first {sizes : List ℕ} (h : ∀ size ∈ sizes, 1 ≤ size) {i : ℕ} (hi : i ≤ sizes.length) :
    i ≤ first sizes i := by
  induction i with
  | zero => exact Nat.zero_le _
  | succ i ih =>
      have hsize := h sizes[i] (List.getElem_mem hi)
      rw [first_succ (List.getElem?_eq_getElem hi)]
      have hbefore := ih (Nat.le_of_succ_le hi)
      omega

/-- There are more numbers than blocks exactly when some block has two. -/
theorem length_lt_first_iff {sizes : List ℕ} (h : ∀ size ∈ sizes, 1 ≤ size) :
    sizes.length < first sizes sizes.length ↔ ∃ size ∈ sizes, 2 ≤ size := by
  induction sizes with
  | nil => simp
  | cons size sizes ih =>
      obtain ⟨hsize, hsizes⟩ := List.forall_mem_cons.mp h
      have hbefore := le_first hsizes (Nat.le_refl _)
      simp only [List.length_cons, first, List.mem_cons, or_and_right, exists_or, exists_eq_left,
        ← ih hsizes]
      omega

/-- The blocks are disjoint. -/
theorem Mem.unique {sizes : List ℕ} {i j k : ℕ} (hi : Mem sizes i k) (hj : Mem sizes j k) : i = j := by
  obtain ⟨hilow, hihigh⟩ := hi
  obtain ⟨hjlow, hjhigh⟩ := hj
  rcases Nat.lt_trichotomy i j with hlt | heq | hgt
  · have hbefore : first sizes (i + 1) ≤ first sizes j := first_mono sizes hlt
    omega
  · exact heq
  · have hbefore : first sizes (j + 1) ≤ first sizes i := first_mono sizes hgt
    omega

end Blocks
