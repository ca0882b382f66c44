import Mathlib.Data.List.Pairwise
import Mathlib.Data.List.Flatten
import Mathlib.Order.Basic

/-!
# Intervals handed out by bumping a top

`bump` hands out an interval at or above the top, `reset` forgets every
interval, and a bracket of `enter` and `leave` saves the top and returns to it,
forgetting what was handed out in between. Brackets nest. `Stacked` is kept by
all four, and under it the intervals in use are disjoint and below the top.
-/

/-- `inner` was handed out in the innermost bracket, newest first; `outer` holds
the saved top of each open bracket and what is in use outside it. -/
structure BumpRegions (α : Type*) where
  top : α
  inner : List (α × α)
  outer : List (α × List (α × α))

namespace BumpRegions

variable {α : Type*}

def outside (brackets : List (α × List (α × α))) : List (α × α) :=
  (brackets.map Prod.snd).flatten

def live (s : BumpRegions α) : List (α × α) := s.inner ++ outside s.outer

def bump (s : BumpRegions α) (start stop : α) : BumpRegions α :=
  { s with top := stop, inner := (start, stop) :: s.inner }

/-- Every interval is forgotten, the saved tops stay. -/
def reset (s : BumpRegions α) (bottom : α) : BumpRegions α :=
  ⟨bottom, [], s.outer.map fun f => (f.1, [])⟩

def enter (s : BumpRegions α) : BumpRegions α := ⟨s.top, [], (s.top, s.inner) :: s.outer⟩

def leave (s : BumpRegions α) : BumpRegions α :=
  match s.outer with
  | [] => s
  | (top, inner) :: outer => ⟨top, inner, outer⟩

theorem outside_forgotten (brackets : List (α × List (α × α))) :
    outside (brackets.map fun f => (f.1, [])) = [] := by
  induction brackets with
  | nil => rfl
  | cons f brackets ih => exact ih

theorem reset_live (s : BumpRegions α) (bottom : α) : (s.reset bottom).live = [] :=
  outside_forgotten s.outer

theorem bump_live (s : BumpRegions α) (start stop : α) :
    (s.bump start stop).live = (start, stop) :: s.live := rfl

/-- Leaving a bracket brings nothing back. -/
theorem mem_live_of_leave {s : BumpRegions α} {b : α × α} (h : b ∈ s.leave.live) : b ∈ s.live := by
  obtain ⟨top, inner, outer⟩ := s
  cases outer with
  | nil => exact h
  | cons f outer => exact List.mem_append_right inner h

theorem reset_tops (s : BumpRegions α) (bottom : α) :
    (s.reset bottom).outer.map Prod.fst = s.outer.map Prod.fst := List.map_map

variable [Preorder α]

/-- Each saved top is at or above the intervals outside its bracket. -/
def Saved : List (α × List (α × α)) → Prop
  | [] => True
  | (top, inner) :: outer => (∀ b ∈ inner ++ outside outer, b.2 ≤ top) ∧ Saved outer

structure Stacked (s : BumpRegions α) : Prop where
  ordered : s.live.Pairwise fun newer older => older.2 ≤ newer.1
  below : ∀ b ∈ s.live, b.2 ≤ s.top
  saved : Saved s.outer

variable {s : BumpRegions α}

theorem empty_stacked (top : α) : Stacked ⟨top, [], []⟩ where
  ordered := List.Pairwise.nil
  below := fun _ hb => absurd hb List.not_mem_nil
  saved := trivial

theorem Stacked.bump (h : s.Stacked) {start stop : α} (hstart : s.top ≤ start)
    (hstop : start ≤ stop) : (s.bump start stop).Stacked where
  ordered := by
    apply List.Pairwise.cons _ h.ordered
    intro b hb
    exact (h.below b hb).trans hstart
  below := by
    intro b hb
    rcases List.mem_cons.mp hb with rfl | hb
    · exact le_rfl
    · exact ((h.below b hb).trans hstart).trans hstop
  saved := h.saved

theorem saved_forgotten (brackets : List (α × List (α × α))) : Saved (brackets.map fun f => (f.1, [])) := by
  induction brackets with
  | nil => trivial
  | cons f brackets ih =>
      refine ⟨?_, ih⟩
      rw [outside_forgotten]
      exact fun b hb => absurd hb List.not_mem_nil

theorem reset_stacked (s : BumpRegions α) (bottom : α) : (s.reset bottom).Stacked where
  ordered := by
    rw [reset_live]
    exact List.Pairwise.nil
  below := by
    rw [reset_live]
    exact fun b hb => absurd hb List.not_mem_nil
  saved := saved_forgotten s.outer

theorem Stacked.enter (h : s.Stacked) : s.enter.Stacked where
  ordered := h.ordered
  below := h.below
  saved := ⟨h.below, h.saved⟩

theorem Stacked.leave (h : s.Stacked) : s.leave.Stacked := by
  obtain ⟨top, inner, outer⟩ := s
  cases outer with
  | nil => exact h
  | cons f outer =>
      have hlive : (BumpRegions.mk top inner (f :: outer)).live = inner ++ (f.2 ++ outside outer) := rfl
      have hordered := h.ordered
      rw [hlive, List.pairwise_append] at hordered
      exact ⟨hordered.2.1, h.saved.1, h.saved.2⟩

/-- Intervals in use have no point in common. -/
theorem Stacked.disjoint (h : s.Stacked) :
    s.live.Pairwise fun b b' => ∀ a, ¬ (b.1 ≤ a ∧ a < b.2 ∧ b'.1 ≤ a ∧ a < b'.2) := by
  apply h.ordered.imp
  rintro b b' hle a ⟨hlo, -, -, hhi⟩
  exact lt_irrefl a (hhi.trans_le (hle.trans hlo))

end BumpRegions
