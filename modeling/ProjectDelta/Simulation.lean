import ProjectDelta.Machine

/-!
# Forward simulation of labelled machines

Two machines with the same labels, the second one coarser: each step of the first
is matched by some steps of the second that keep the two states related and show
the same visible labels. Guards travel along: when the matching steps obey a guard,
so does the matching run.
-/

namespace Machine

variable {σ σ' ℓ : Type*} {M : Machine σ ℓ} {N : Machine σ' ℓ} {G : σ → ℓ → Prop} {H : σ' → ℓ → Prop}

theorem exec_append {s a : σ} {ls : List ℓ} (ls' : List ℓ) (h : M.exec s ls = some a) :
    M.exec s (ls ++ ls') = M.exec a ls' := by
  induction ls generalizing s with
  | nil =>
      obtain rfl : s = a := Option.some.inj h
      rfl
  | cons l ls ih =>
      obtain ⟨b, hn, hb⟩ := Option.bind_eq_some_iff.mp h
      rw [List.cons_append, exec, hn]
      exact ih hb

theorem obeys_append {s a : σ} {ls ls' : List ℓ} (h : M.exec s ls = some a) (hG : M.Obeys G s ls)
    (hG' : M.Obeys G a ls') : M.Obeys G s (ls ++ ls') := by
  induction ls generalizing s with
  | nil =>
      obtain rfl : s = a := Option.some.inj h
      exact hG'
  | cons l ls ih =>
      obtain ⟨b, hn, hb⟩ := Option.bind_eq_some_iff.mp h
      exact (obeys_cons_iff hn).mpr ⟨hG.1, ih hb (hG.2 b hn)⟩

theorem exec_one {s a : σ} {l : ℓ} (h : M.next s l = some a) : M.exec s [l] = some a := by
  rw [exec, h]
  rfl

theorem obeys_one {s : σ} {l : ℓ} (h : G s l) : M.Obeys G s [l] := ⟨h, fun _ _ => trivial⟩

variable (N H) in
/-- Steps of the coarse machine from `a` to `b` that obey `H` and show what `l` shows. -/
def Matches (visible : ℓ → Bool) (a : σ') (l : ℓ) (b : σ') : Prop :=
  ∃ ls, N.exec a ls = some b ∧ N.Obeys H a ls ∧ ls.filter visible = [l].filter visible

/-- No step, for a label that is not shown. -/
theorem matches_nothing {visible : ℓ → Bool} {a b : σ'} {l : ℓ} (hb : b = a)
    (h : visible l = false) : N.Matches H visible a l b := by
  subst hb
  exact ⟨[], rfl, trivial, by rw [List.filter_cons_of_neg (by rw [h]; exact Bool.false_ne_true)]⟩

theorem matches_same {visible : ℓ → Bool} {a b : σ'} {l : ℓ} (hH : H a l) (h : N.next a l = some b) :
    N.Matches H visible a l b := ⟨[l], exec_one h, obeys_one hH, rfl⟩

/-- A step that is not shown, and then the matching one. -/
theorem Matches.before {visible : ℓ → Bool} {a b c : σ'} {l l' : ℓ} (h : N.Matches H visible b l c)
    (hl' : visible l' = false) (hH : H a l') (hn : N.next a l' = some b) :
    N.Matches H visible a l c := by
  obtain ⟨ls, hexec, hobeys, hvisible⟩ := h
  refine ⟨l' :: ls, ?_, (obeys_cons_iff hn).mpr ⟨hH, hobeys⟩, ?_⟩
  · rw [exec, hn]
    exact hexec
  · rw [List.filter_cons_of_neg (by rw [hl']; exact Bool.false_ne_true), hvisible]

/-- A relation that every guarded step keeps, with matching steps, makes every guarded run match. -/
theorem exec_simulates {R : σ → σ' → Prop} {visible : ℓ → Bool}
    (hstep : ∀ a l b a', R a a' → G a l → M.next a l = some b →
      ∃ b', N.Matches H visible a' l b' ∧ R b b')
    {s s' : σ} {t : σ'} (ls : List ℓ) (h : M.exec s ls = some s') (hG : M.Obeys G s ls) (hR : R s t) :
    ∃ ls' t', N.exec t ls' = some t' ∧ N.Obeys H t ls' ∧
      ls'.filter visible = ls.filter visible ∧ R s' t' := by
  induction ls generalizing s t with
  | nil =>
      obtain rfl : s = s' := Option.some.inj h
      exact ⟨[], t, rfl, trivial, rfl, hR⟩
  | cons l ls ih =>
      obtain ⟨a, hn, ha⟩ := Option.bind_eq_some_iff.mp h
      obtain ⟨b, ⟨ks, hks, hobeys, hvisible⟩, hRb⟩ := hstep s l a t hR hG.1 hn
      obtain ⟨ls', t', hexec, hobeys', hvisible', hR'⟩ := ih ha (hG.2 a hn) hRb
      refine ⟨ks ++ ls', t', ?_, obeys_append hks hobeys hobeys', ?_, hR'⟩
      · rw [exec_append ls' hks]
        exact hexec
      · rw [List.filter_append, hvisible, hvisible', ← List.filter_append, List.singleton_append]

end Machine
