import Mathlib.Data.Nat.Notation

/-!
# Calls on shared memory, one access at a time

A `SharedCall` is the program of one call on a memory `μ` that other threads
also use: `enter` builds its first frame from the argument and each `step` makes
one access and either moves to the next frame or returns. `alone` runs a call
with nobody else moving, and `Computes` compares that run with a function.
-/

structure SharedCall (μ α ρ : Type) where
  Frame : Type
  enter : α → Frame
  step : μ → Frame → μ × (Frame ⊕ ρ)

namespace SharedCall

variable {μ α ρ : Type}

/-- The whole call as one access. -/
def atomic (f : α → μ → μ × ρ) : SharedCall μ α ρ where
  Frame := α
  enter := id
  step m a := ((f a m).1, .inr (f a m).2)

variable (C : SharedCall μ α ρ)

def alone : ℕ → μ → C.Frame → μ × (C.Frame ⊕ ρ)
  | 0, m, fr => (m, .inl fr)
  | n + 1, m, fr => match C.step m fr with
    | (m', .inl fr') => alone n m' fr'
    | (m', .inr r) => (m', .inr r)

def Computes (f : α → μ → μ × ρ) : Prop :=
  ∀ a m, ∃ n, C.alone n m (C.enter a) = ((f a m).1, .inr (f a m).2)

/-- No access of the call changes what `view` shows of the memory. -/
def Frames {β : Type} (view : μ → β) : Prop :=
  ∀ m fr, view (C.step m fr).1 = view m

/-- The one access of an atomic call returns what the function does. -/
theorem atomic_returns {f : α → μ → μ × ρ} {a : α} {m m' : μ} {r : ρ}
    (h : (atomic f).step m a = (m', .inr r)) : f a m = (m', r) := by
  obtain ⟨hm, hr⟩ := Prod.mk.inj h
  exact Prod.ext hm (Sum.inr.inj hr)

theorem atomic_step {f : α → μ → μ × ρ} {a : α} {m m' : μ} {r : ρ} (h : f a m = (m', r)) :
    (atomic f).step m ((atomic f).enter a) = (m', .inr r) := by
  have hstep : (atomic f).step m ((atomic f).enter a) = ((f a m).1, .inr (f a m).2) := rfl
  rw [hstep, h]

theorem atomic_computes (f : α → μ → μ × ρ) : (atomic f).Computes f :=
  fun _ _ => ⟨1, rfl⟩

theorem atomic_frames {f : α → μ → μ × ρ} {β : Type} {view : μ → β}
    (h : ∀ a m, view (f a m).1 = view m) : (atomic f).Frames view :=
  fun m a => h a m

end SharedCall
