import ProjectDelta.BoundedDeque
import ProjectDelta.Machine

/-!
# What a run emits

`trace emit` lists what the moves of a schedule emit, in order. If every move that
emits an operation and its outcome is a step of an object `g` on what the machine
shows of its state, and every other move changes nothing of that, then the trace
of a run is a sequential run of `g`. Two traces that differ, step by step, by what
is under way differ at the end by what is then under way.
-/

namespace Machine

variable {σ ℓ ε T ι ο : Type*} {M : Machine σ ℓ}

variable (M) in
def trace (emit : σ → ℓ → List ε) (s : σ) : List ℓ → List ε
  | [] => []
  | l :: ls => emit s l ++ match M.next s l with
    | some s' => trace emit s' ls
    | none => []

theorem trace_cons {emit : σ → ℓ → List ε} {s s' : σ} {l : ℓ} (ls : List ℓ)
    (h : M.next s l = some s') : M.trace emit s (l :: ls) = emit s l ++ M.trace emit s' ls := by
  rw [trace, h]

/-- A run whose moves are steps of `g` on the view, or leave the view alone, is a run of `g`. -/
theorem trace_conforms (g : T → ι → T × ο) {I : σ → Prop} (view : σ → T)
    (emit : σ → ℓ → List (ι × ο))
    (hstep : ∀ a l b, I a → M.next a l = some b → I b ∧
      Mealy.outcomes g (view a) ((emit a l).map Prod.fst) = (emit a l).map Prod.snd ∧
      Mealy.final g (view a) ((emit a l).map Prod.fst) = view b)
    {s s' : σ} (ls : List ℓ) (h : M.exec s ls = some s') (h0 : I s) :
    Mealy.outcomes g (view s) ((M.trace emit s ls).map Prod.fst) =
        (M.trace emit s ls).map Prod.snd ∧
      Mealy.final g (view s) ((M.trace emit s ls).map Prod.fst) = view s' := by
  induction ls generalizing s with
  | nil =>
      obtain rfl : s = s' := Option.some.inj h
      exact ⟨rfl, rfl⟩
  | cons l ls ih =>
      obtain ⟨a, hn, ha⟩ := Option.bind_eq_some_iff.mp h
      obtain ⟨hI, hout, hfinal⟩ := hstep s l a h0 hn
      obtain ⟨houts, hfinals⟩ := ih ha hI
      rw [trace_cons ls hn, List.map_append, List.map_append, Mealy.outcomes_append,
        Mealy.final_append, hfinal]
      exact ⟨by rw [hout, houts], hfinals⟩

/-- What is under way at the start and what is emitted is what is answered and what is under way at
the end. -/
theorem trace_balance {I : σ → Prop} (emit answer : σ → ℓ → List ε) (underWay : σ → List ε)
    (hstep : ∀ a l b, I a → M.next a l = some b → I b ∧
      underWay a ++ emit a l = answer a l ++ underWay b)
    {s s' : σ} (ls : List ℓ) (h : M.exec s ls = some s') (h0 : I s) :
    underWay s ++ M.trace emit s ls = M.trace answer s ls ++ underWay s' := by
  induction ls generalizing s with
  | nil =>
      obtain rfl : s = s' := Option.some.inj h
      exact List.append_nil _
  | cons l ls ih =>
      obtain ⟨a, hn, ha⟩ := Option.bind_eq_some_iff.mp h
      obtain ⟨hI, hkeep⟩ := hstep s l a h0 hn
      rw [trace_cons ls hn, trace_cons ls hn, ← List.append_assoc, hkeep, List.append_assoc,
        ih ha hI, List.append_assoc]

end Machine
