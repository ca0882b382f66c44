import Mathlib.Algebra.Order.Ring.Nat
import Mathlib.Tactic.Ring

/-!
# Byte-addressed memory

A memory maps addresses to bytes. `store` writes the low `w` bytes of a number,
least significant first, and `load` reads `w` bytes back. A load sees the last
store to the same bytes and none that is disjoint from it.
-/

def ByteMemory := ℕ → BitVec 8

namespace ByteMemory

def load (m : ByteMemory) (a : ℕ) : ℕ → ℕ
  | 0 => 0
  | w + 1 => load m a w + 256 ^ w * (m (a + w)).toNat

def store (m : ByteMemory) (a w v : ℕ) : ByteMemory :=
  fun p => if a ≤ p ∧ p < a + w then BitVec.ofNat 8 (v / 256 ^ (p - a)) else m p

theorem load_congr {m m' : ByteMemory} {a w : ℕ} (h : ∀ p, a ≤ p → p < a + w → m' p = m p) :
    m'.load a w = m.load a w := by
  induction w with
  | zero => rfl
  | succ w ih =>
      rw [load, load, h (a + w) (by omega) (by omega)]
      rw [ih fun p hlo hhi => h p hlo (by omega)]

theorem load_store_disjoint (m : ByteMemory) {a b w w' : ℕ} (v : ℕ)
    (h : b + w' ≤ a ∨ a + w ≤ b) : (m.store a w v).load b w' = m.load b w' := by
  apply load_congr
  intro p hlo hhi
  have hout : ¬ (a ≤ p ∧ p < a + w) := by omega
  exact if_neg hout

theorem load_store_prefix (m : ByteMemory) (a v : ℕ) {w w' : ℕ} (h : w' ≤ w) :
    (m.store a w v).load a w' = v % 256 ^ w' := by
  induction w' with
  | zero => simp [load, Nat.mod_one]
  | succ w' ih =>
      have hin : a ≤ a + w' ∧ a + w' < a + w := by omega
      have hbyte : (m.store a w v (a + w')).toNat = v / 256 ^ w' % 256 := by
        simp [store, hin]
      rw [load, ih (by omega), hbyte, pow_succ, Nat.mod_mul]

theorem load_store_self (m : ByteMemory) (a w v : ℕ) :
    (m.store a w v).load a w = v % 256 ^ w := load_store_prefix m a v le_rfl

end ByteMemory
