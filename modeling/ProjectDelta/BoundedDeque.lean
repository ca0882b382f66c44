import Mathlib.Data.List.Basic
import Mathlib.Data.List.Perm.Basic

/-!
# Operations with outcomes, and the bounded double-ended list

`final` and `outcomes` run a list of operations of any object that answers each
operation with an outcome. Two objects related step by step give the same
outcomes. `BoundedDeque` is the list that a work-stealing queue is meant to be:
its owner works at the new end, thieves take from the old end, and an element
that does not fit is run at once.
-/

namespace Mealy

variable {S T ι ο : Type*}

def final (f : S → ι → S × ο) (s : S) (ops : List ι) : S :=
  ops.foldl (fun s op => (f s op).1) s

def outcomes (f : S → ι → S × ο) : S → List ι → List ο
  | _, [] => []
  | s, op :: ops => (f s op).2 :: outcomes f (f s op).1 ops

variable (f : S → ι → S × ο) (g : T → ι → T × ο)

@[simp] theorem final_nil (s : S) : final f s [] = s := rfl

@[simp] theorem final_cons (s : S) (op : ι) (ops : List ι) :
    final f s (op :: ops) = final f (f s op).1 ops := rfl

theorem final_append (s : S) (ops ops' : List ι) :
    final f s (ops ++ ops') = final f (final f s ops) ops' := List.foldl_append

theorem outcomes_append (s : S) (ops ops' : List ι) :
    outcomes f s (ops ++ ops') = outcomes f s ops ++ outcomes f (final f s ops) ops' := by
  induction ops generalizing s with
  | nil => rfl
  | cons op ops ih => simp only [List.cons_append, outcomes, ih, final_cons]

@[simp] theorem length_outcomes (s : S) (ops : List ι) :
    (outcomes f s ops).length = ops.length := by
  induction ops generalizing s with
  | nil => rfl
  | cons op ops ih => simp only [outcomes, List.length_cons, ih]

/-- Every operation of the list meets `G` in the state in which it is made. -/
def Obeys (G : T → ι → Prop) (t : T) : List ι → Prop
  | [] => True
  | op :: ops => G t op ∧ Obeys G (g t op).1 ops

theorem obeys_iff {G : T → ι → Prop} {t : T} {ops : List ι} :
    Obeys g G t ops ↔ ∀ pre op post, ops = pre ++ op :: post → G (final g t pre) op := by
  induction ops generalizing t with
  | nil => simp [Obeys]
  | cons op ops ih =>
      rw [Obeys, ih]
      constructor
      · rintro ⟨h0, h⟩ pre op' post he
        cases pre with
        | nil =>
            obtain ⟨rfl, rfl⟩ := List.cons.inj he
            exact h0
        | cons a pre =>
            obtain ⟨rfl, rfl⟩ := List.cons.inj he
            exact h pre op' post rfl
      · intro h
        exact ⟨h [] op ops rfl, fun pre op' post he => h (op :: pre) op' post (by rw [he]; rfl)⟩

/-- A relation kept by every guarded operation, with equal outcomes, makes the
two runs agree. -/
theorem simulates {R : S → T → Prop} {G : T → ι → Prop}
    (hstep : ∀ s t op, R s t → G t op → (f s op).2 = (g t op).2 ∧ R (f s op).1 (g t op).1)
    {s : S} {t : T} (h0 : R s t) {ops : List ι} (hG : Obeys g G t ops) :
    outcomes f s ops = outcomes g t ops ∧ R (final f s ops) (final g t ops) := by
  induction ops generalizing s t with
  | nil => exact ⟨rfl, h0⟩
  | cons op ops ih =>
      obtain ⟨ho, hR⟩ := hstep s t op h0 hG.1
      obtain ⟨hos, hfinal⟩ := ih hR hG.2
      exact ⟨by rw [outcomes, outcomes, ho, hos], hfinal⟩

theorem final_invariant {I : S → Prop} (hstep : ∀ s op, I s → I (f s op).1) {s : S} (h0 : I s)
    (ops : List ι) : I (final f s ops) := by
  induction ops generalizing s with
  | nil => exact h0
  | cons op ops ih => exact ih (hstep s op h0)

end Mealy

open scoped List

namespace BoundedDeque

variable {α : Type*}

inductive Op (α : Type*)
  | push (a : α)
  | pop
  | steal

inductive Outcome (α : Type*)
  | queued
  | ran (a : α)
  | returned (r : Option α)
  deriving DecidableEq

def step (n : ℕ) (l : List α) : Op α → List α × Outcome α
  | .push a => if l.length < n then (l ++ [a], .queued) else (l, .ran a)
  | .pop => (l.dropLast, .returned l.getLast?)
  | .steal => (l.tail, .returned l.head?)

def Op.pushed : Op α → Option α
  | .push a => some a
  | _ => none

def Outcome.leaves : Outcome α → Option α
  | .queued => none
  | .ran a => some a
  | .returned r => r

/-- The elements pushed, in order. -/
def pushes (ops : List (Op α)) : List α := ops.filterMap Op.pushed

/-- The elements run at once or returned, in order. -/
def left (os : List (Outcome α)) : List α := os.filterMap Outcome.leaves

theorem step_perm (n : ℕ) (l : List α) (op : Op α) :
    (op.pushed.toList ++ l).Perm ((step n l op).2.leaves.toList ++ (step n l op).1) := by
  cases op with
  | push a =>
      by_cases h : l.length < n
      · simpa [Op.pushed, step, h, Outcome.leaves] using (List.perm_append_singleton a l).symm
      · simp [Op.pushed, step, h, Outcome.leaves]
  | pop =>
      rcases List.eq_nil_or_concat' l with rfl | ⟨l', a, rfl⟩
      · simp [Op.pushed, step, Outcome.leaves]
      · simp [Op.pushed, step, Outcome.leaves]
  | steal => cases l <;> simp [Op.pushed, step, Outcome.leaves]

/-- Every element pushed is run at once, returned once, or still held. -/
theorem run_perm (n : ℕ) (l : List α) (ops : List (Op α)) :
    (pushes ops ++ l).Perm (left (Mealy.outcomes (step n) l ops) ++ Mealy.final (step n) l ops) := by
  induction ops generalizing l with
  | nil => simp [pushes, left, Mealy.outcomes]
  | cons op ops ih =>
      have hpush : pushes (op :: ops) = op.pushed.toList ++ pushes ops := by
        cases h : op.pushed <;> simp [pushes, h]
      have hleft : left (Mealy.outcomes (step n) l (op :: ops)) =
          (step n l op).2.leaves.toList ++
            left (Mealy.outcomes (step n) (step n l op).1 ops) := by
        cases h : (step n l op).2.leaves <;> simp [left, Mealy.outcomes, h]
      rw [hpush, hleft, Mealy.final_cons, List.append_assoc]
      calc
        _ ~ pushes ops ++ (op.pushed.toList ++ l) := by
          rw [← List.append_assoc, ← List.append_assoc]
          exact List.perm_append_comm.append_right l
        _ ~ pushes ops ++ ((step n l op).2.leaves.toList ++ (step n l op).1) :=
          (step_perm n l op).append_left _
        _ ~ (step n l op).2.leaves.toList ++ (pushes ops ++ (step n l op).1) := by
          rw [← List.append_assoc, ← List.append_assoc]
          exact List.perm_append_comm.append_right _
        _ ~ _ := by
          rw [List.append_assoc]
          exact (ih (step n l op).1).append_left _

end BoundedDeque
