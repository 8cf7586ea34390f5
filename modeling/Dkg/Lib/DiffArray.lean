import Mathlib.Tactic

/-! # Difference arrays

A difference array stores a function on epochs through its increments: the value at `x` is the
sum of the increments at the indices `1..x` (index `0` is never read). Adding `v` on a whole
range `[a, b)` touches two increments only (`addRange`), and `prefixSum_addRange` says that this
is exactly what the values see.
-/

namespace Dkg.Lib

open Function (update)
open Finset

/-- The value at `x`: the sum of the increments at `1..x`. -/
def prefixSum (d : ℕ → ℤ) (x : ℕ) : ℤ := ∑ y ∈ Finset.Icc 1 x, d y

/-- Add `v` on the range `[a, b)`: one increment at `a`, the opposite one at `b`. -/
def addRange (d : ℕ → ℤ) (a b : ℕ) (v : ℤ) : ℕ → ℤ :=
  update (update d a (d a + v)) b (update d a (d a + v) b - v)

@[simp] lemma prefixSum_zero (d : ℕ → ℤ) : prefixSum d 0 = 0 := by
  simp [prefixSum]

lemma prefixSum_succ (d : ℕ → ℤ) (x : ℕ) : prefixSum d (x + 1) = prefixSum d x + d (x + 1) := by
  rw [prefixSum, prefixSum, Finset.sum_Icc_succ_top (by omega)]

/-- Changing one increment changes the values from that index on. -/
lemma prefixSum_update (d : ℕ → ℤ) (a : ℕ) (v : ℤ) (ha : 1 ≤ a) (x : ℕ) :
    prefixSum (update d a (d a + v)) x = prefixSum d x + if a ≤ x then v else 0 := by
  induction x with
  | zero =>
    have h : ¬ a ≤ 0 := by omega
    simp [h]
  | succ x ih =>
    rw [prefixSum_succ, prefixSum_succ, ih]
    rcases Nat.lt_trichotomy a (x + 1) with h | h | h
    · rw [Function.update_of_ne (by omega), if_pos (by omega), if_pos (by omega)]
      ring
    · subst h
      rw [Function.update_self, if_neg (by omega), if_pos le_rfl]
      ring
    · rw [Function.update_of_ne (by omega), if_neg (by omega), if_neg (by omega)]
      ring

/-- **Range update.** The values see `v` on `[a, b)` and nothing elsewhere. -/
lemma prefixSum_addRange (d : ℕ → ℤ) {a b : ℕ} (v : ℤ) (ha : 1 ≤ a) (hab : a < b) (x : ℕ) :
    prefixSum (addRange d a b v) x = prefixSum d x + if a ≤ x ∧ x < b then v else 0 := by
  have hb : (update d a (d a + v)) b - v = (update d a (d a + v)) b + (-v) := by ring
  rw [addRange, hb, prefixSum_update _ b (-v) (by omega), prefixSum_update _ a v ha]
  by_cases h1 : a ≤ x
  · by_cases h2 : b ≤ x
    · rw [if_pos h1, if_pos h2, if_neg (by omega)]; ring
    · rw [if_pos h1, if_neg h2, if_pos (by omega)]; ring
  · rw [if_neg h1, if_neg (by omega), if_neg (by omega)]; ring

end Dkg.Lib
