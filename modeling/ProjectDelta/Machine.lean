import Mathlib.Logic.Relation
import Mathlib.Data.List.Basic

/-!
# Labelled machines, guarded runs and invariants

A machine is a partial step function: a label chooses who moves and how, and
`none` says that the move is not possible. `ReachIf G` follows only steps whose
source state and label meet `G`; `Reach` follows all of them. An invariant is
proved for one step and carried over a run by `ReachIf.invariant`.
-/

structure Machine (σ ℓ : Type*) where
  next : σ → ℓ → Option σ

namespace Machine

variable {σ ℓ : Type*} (M : Machine σ ℓ) {G H : σ → ℓ → Prop}

def StepIf (G : σ → ℓ → Prop) (s s' : σ) : Prop :=
  ∃ l, G s l ∧ M.next s l = some s'

def ReachIf (G : σ → ℓ → Prop) : σ → σ → Prop :=
  Relation.ReflTransGen (M.StepIf G)

abbrev Reach : σ → σ → Prop := M.ReachIf (fun _ _ => True)

variable {M}

theorem ReachIf.refl (s : σ) : M.ReachIf G s s := Relation.ReflTransGen.refl

theorem ReachIf.trans {s s' s'' : σ} (h : M.ReachIf G s s') (h' : M.ReachIf G s' s'') :
    M.ReachIf G s s'' := Relation.ReflTransGen.trans h h'

theorem ReachIf.tail {s s' s'' : σ} {l : ℓ} (h : M.ReachIf G s s') (hg : G s' l)
    (hn : M.next s' l = some s'') : M.ReachIf G s s'' :=
  Relation.ReflTransGen.tail h ⟨l, hg, hn⟩

theorem ReachIf.mono (hGH : ∀ s l, G s l → H s l) {s s' : σ} (h : M.ReachIf G s s') :
    M.ReachIf H s s' :=
  Relation.ReflTransGen.mono (fun _ _ ⟨l, hg, hn⟩ => ⟨l, hGH _ l hg, hn⟩) _ _ h

/-- What every guarded step preserves holds along every guarded run. -/
theorem ReachIf.invariant {I : σ → Prop} {s s' : σ}
    (hstep : ∀ a l b, I a → G a l → M.next a l = some b → I b)
    (h : M.ReachIf G s s') (h0 : I s) : I s' := by
  induction h with
  | refl => exact h0
  | tail _ hab ih =>
      obtain ⟨l, hg, hn⟩ := hab
      exact hstep _ l _ ih hg hn

/-- A part of the state that every step leaves as it is or moves by a step of a machine of its own
makes a run of that machine. -/
theorem ReachIf.project {τ κ : Type*} {N : Machine τ κ} {K : τ → κ → Prop} (part : σ → τ)
    (hstep : ∀ a l b, G a l → M.next a l = some b →
      part b = part a ∨ ∃ k, K (part a) k ∧ N.next (part a) k = some (part b))
    {s s' : σ} (h : M.ReachIf G s s') : N.ReachIf K (part s) (part s') := by
  induction h with
  | refl => exact ReachIf.refl _
  | tail _ hab ih =>
      obtain ⟨l, hg, hn⟩ := hab
      rcases hstep _ l _ hg hn with hsame | ⟨k, hk, hnext⟩
      · rw [hsame]
        exact ih
      · exact ih.tail hk hnext

variable (M) in
/-- The run that follows a schedule, when every move of it is possible. -/
def exec (s : σ) : List ℓ → Option σ
  | [] => some s
  | l :: ls => (M.next s l).bind fun s' => exec s' ls

variable (M) in
/-- Every move of the schedule is made from a state that meets `G`. -/
def Obeys (G : σ → ℓ → Prop) (s : σ) : List ℓ → Prop
  | [] => True
  | l :: ls => G s l ∧ ∀ s', M.next s l = some s' → Obeys G s' ls

theorem obeys_cons_iff {s s' : σ} {l : ℓ} {ls : List ℓ} (h : M.next s l = some s') :
    M.Obeys G s (l :: ls) ↔ G s l ∧ M.Obeys G s' ls := by
  constructor
  · exact fun ho => ⟨ho.1, ho.2 s' h⟩
  · rintro ⟨hg, ho⟩
    refine ⟨hg, fun a ha => ?_⟩
    obtain rfl : s' = a := Option.some.inj (h.symm.trans ha)
    exact ho

theorem obeys_stuck_iff {s : σ} {l : ℓ} {ls : List ℓ} (h : M.next s l = none) :
    M.Obeys G s (l :: ls) ↔ G s l := by
  refine ⟨And.left, fun hg => ⟨hg, fun a ha => ?_⟩⟩
  rw [h] at ha
  cases ha

instance decidableObeys [∀ s l, Decidable (G s l)] :
    ∀ (s : σ) (ls : List ℓ), Decidable (M.Obeys G s ls)
  | _, [] => isTrue trivial
  | s, l :: ls => match h : M.next s l with
    | none => decidable_of_iff _ (obeys_stuck_iff h).symm
    | some s' =>
        have := decidableObeys s' ls
        decidable_of_iff _ (obeys_cons_iff h).symm

theorem reachIf_of_exec {s s' : σ} (ls : List ℓ) (h : M.exec s ls = some s')
    (hG : M.Obeys G s ls) : M.ReachIf G s s' := by
  induction ls generalizing s with
  | nil =>
      obtain rfl : s = s' := Option.some.inj h
      exact ReachIf.refl s
  | cons l ls ih =>
      obtain ⟨a, hn, ha⟩ := Option.bind_eq_some_iff.mp h
      exact ReachIf.trans (ReachIf.tail (ReachIf.refl s) hG.1 hn) (ih ha (hG.2 a hn))

theorem obeys_true (s : σ) (ls : List ℓ) : M.Obeys (fun _ _ => True) s ls := by
  induction ls generalizing s with
  | nil => trivial
  | cons l ls ih => exact ⟨trivial, fun s' _ => ih s'⟩

/-- When every guarded move that counts uses up a budget, no guarded schedule has more of them than
the budget. -/
theorem exec_bound {R : σ → ℕ → Prop} {counts : ℓ → Bool}
    (hstep : ∀ a m l b, R a m → G a l → M.next a l = some b →
      ∃ m', (if counts l then 1 else 0) + m' ≤ m ∧ R b m')
    {s s' : σ} {m : ℕ} (ls : List ℓ) (h : M.exec s ls = some s') (hG : M.Obeys G s ls) (hR : R s m) :
    ∃ m', ls.countP counts + m' ≤ m ∧ R s' m' := by
  induction ls generalizing s m with
  | nil =>
      obtain rfl : s = s' := Option.some.inj h
      exact ⟨m, Nat.le_of_eq (Nat.zero_add m), hR⟩
  | cons l ls ih =>
      obtain ⟨a, hn, ha⟩ := Option.bind_eq_some_iff.mp h
      obtain ⟨m₁, hle₁, hR₁⟩ := hstep s m l a hR hG.1 hn
      obtain ⟨m', hle, hR'⟩ := ih ha (hG.2 a hn) hR₁
      exact ⟨m', by rw [List.countP_cons]; omega, hR'⟩

/-- What the labels of a schedule cost together. -/
def outlay (cost : ℓ → ℕ) : List ℓ → ℕ
  | [] => 0
  | l :: ls => cost l + outlay cost ls

/-- When the guarded moves that count use up a potential and the others add at most their cost to it,
no guarded schedule has more moves that count than the potential at its start and the costs give. -/
theorem exec_outlay {I : σ → Prop} {potential : σ → ℕ} {cost : ℓ → ℕ} {counts : ℓ → Bool}
    (hstep : ∀ a l b, I a → G a l → M.next a l = some b →
      I b ∧ (if counts l then 1 else 0) + potential b ≤ potential a + cost l)
    {s s' : σ} (ls : List ℓ) (h : M.exec s ls = some s') (hG : M.Obeys G s ls) (h0 : I s) :
    ls.countP counts + potential s' ≤ potential s + outlay cost ls := by
  induction ls generalizing s with
  | nil =>
      obtain rfl : s = s' := Option.some.inj h
      exact Nat.le_of_eq (Nat.zero_add _)
  | cons l ls ih =>
      obtain ⟨a, hn, ha⟩ := Option.bind_eq_some_iff.mp h
      obtain ⟨hI, hle⟩ := hstep s l a h0 hG.1 hn
      have hrest := ih ha (hG.2 a hn) hI
      rw [List.countP_cons, outlay]
      omega

theorem Obeys.mono (hGH : ∀ s l, G s l → H s l) {s : σ} {ls : List ℓ} (h : M.Obeys G s ls) :
    M.Obeys H s ls := by
  induction ls generalizing s with
  | nil => trivial
  | cons l ls ih => exact ⟨hGH s l h.1, fun s' hn => ih (h.2 s' hn)⟩

/-- A guard on labels alone. -/
theorem obeys_of_forall {ls : List ℓ} (h : ∀ l ∈ ls, ∀ s, G s l) (s : σ) : M.Obeys G s ls := by
  induction ls generalizing s with
  | nil => trivial
  | cons l ls ih =>
      exact ⟨h l List.mem_cons_self s, fun s' _ => ih (fun a ha => h a (List.mem_cons_of_mem l ha)) s'⟩

/-- Moves that each lower a potential can be made until none of them is possible. -/
theorem exists_run_to_rest {I : σ → Prop} {potential : σ → ℕ} {P : ℓ → Prop}
    (hstep : ∀ a l b, I a → P l → M.next a l = some b → I b ∧ potential b < potential a)
    {s : σ} (h0 : I s) :
    ∃ ls s', (∀ l ∈ ls, P l) ∧ M.exec s ls = some s' ∧ ∀ l, P l → M.next s' l = none := by
  induction hm : potential s using Nat.strongRecOn generalizing s with
  | ind m ih =>
      by_cases hrest : ∀ l, P l → M.next s l = none
      · exact ⟨[], s, fun l hl => (List.not_mem_nil hl).elim, rfl, hrest⟩
      · obtain ⟨l, hl⟩ := not_forall.mp hrest
        obtain ⟨hP, hne⟩ := Classical.not_imp.mp hl
        obtain ⟨a, ha⟩ := Option.ne_none_iff_exists'.mp hne
        obtain ⟨hI, hlt⟩ := hstep s l a h0 hP ha
        obtain ⟨ls, s', hls, hexec, hstuck⟩ := ih (potential a) (hm ▸ hlt) hI rfl
        refine ⟨l :: ls, s', ?_, ?_, hstuck⟩
        · exact List.forall_mem_cons.mpr ⟨hP, hls⟩
        · rw [exec, ha]
          exact hexec

theorem reach_of_exec {s s' : σ} (ls : List ℓ) (h : M.exec s ls = some s') : M.Reach s s' :=
  reachIf_of_exec ls h (obeys_true s ls)

end Machine
